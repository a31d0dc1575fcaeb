/-
# Imports are confirmed

Once an attempt is stored as importing, its import may have happened, and only
`CheckImport` can tell. A receipt settles it. A failure without a receipt does
not: history may lag behind the command, so `reconcile` stores when it first
saw the failure and gives up on one seen at least thirty seconds later.

The answer a frame is about to store is in the past of the run, and so is the
failure that set the stored time; both are read off the past here. What the
code does not secure is that the two failures are two: `reconcile` reads the
clock twice, and when the readings are thirty seconds apart the failure that
set the time also ends the attempt. Nor does it secure that a receipt is kept:
the column stores the receipt `null` as NULL.
-/

import NixConfig.MediaRepair.Repair.Engine

namespace NixConfig.MediaRepair.Repair

open Data Semantics Jobs

/-- How long a failure without a receipt has to last. -/
def gracePeriod : Duration := 30 * second

/-- A failure was reported, and no receipt. -/
def ImportStatus.Failed (status : ImportStatus) : Prop :=
  status.receipt.len = 0 ∧ status.failure ≠ ""
  deriving Decidable

/-! ## What `reconcile` stores -/

/-- What the engine stored with the intent to import. -/
structure SameImport (before after : Attempt) : Prop where
  importRequest : after.importRequest = before.importRequest
  historyIDBefore : after.historyIDBefore = before.historyIDBefore
  outputPath : after.outputPath = before.outputPath
  importStartedAt : after.importStartedAt = before.importStartedAt

theorem SameImport.refl (attempt : Attempt) : SameImport attempt attempt := ⟨rfl, rfl, rfl, rfl⟩

theorem SameImport.trans {first second third : Attempt} (h₁ : SameImport first second)
    (h₂ : SameImport second third) : SameImport first third :=
  ⟨h₂.importRequest.trans h₁.importRequest, h₂.historyIDBefore.trans h₁.historyIDBefore,
    h₂.outputPath.trans h₁.outputPath, h₂.importStartedAt.trans h₁.importStartedAt⟩

/-- How an attempt that is written differs from the stored one, by the answer of
`CheckImport`. -/
inductive Verdict (stored : Attempt) (answer : Except String ImportStatus) (clock later : Time)
    (attempt : Attempt) : Prop
  | open_ (state : attempt.state = stored.state)
      (terminal : attempt.importTerminalAt = stored.importTerminalAt)
  | imported {status : ImportStatus} (answer_eq : answer = .ok status)
      (receipt : status.receipt.len ≠ 0) (state : attempt.state = .imported)
      (receipt_eq : attempt.importReceipt = status.receipt)
      (terminal : attempt.importTerminalAt = stored.importTerminalAt)
  | noticed {status : ImportStatus} (answer_eq : answer = .ok status) (failed : status.Failed)
      (unset : stored.importTerminalAt = 0) (terminal : attempt.importTerminalAt = clock)
      (state : attempt.state = stored.state ∨
        attempt.state = .failed ∧ later - clock ≥ gracePeriod)
  | failed {status : ImportStatus} (answer_eq : answer = .ok status) (failed : status.Failed)
      (set : stored.importTerminalAt ≠ 0)
      (terminal : attempt.importTerminalAt = stored.importTerminalAt)
      (state : attempt.state = .failed) (lasted : later - stored.importTerminalAt ≥ gracePeriod)

section Reconcile

variable (attempt : Attempt)

theorem sameImport_submitted (answer : Except String Int) (now : Time) :
    SameImport attempt (submitted attempt answer now) := by
  cases answer <;> exact ⟨rfl, rfl, rfl, rfl⟩

theorem sameImport_awaited (failure : String) (clock later : Time) :
    SameImport attempt (awaited attempt failure clock later) := by
  unfold awaited
  dsimp only
  split <;> split <;> exact ⟨rfl, rfl, rfl, rfl⟩

theorem sameImport_reconciled (answer : Except String ImportStatus) (clock later now : Time) :
    SameImport attempt (reconciled attempt answer clock later now) := by
  cases answer with
  | error text => exact ⟨rfl, rfl, rfl, rfl⟩
  | ok status =>
    unfold reconciled
    dsimp only
    split
    · exact ⟨rfl, rfl, rfl, rfl⟩
    split
    · have hsame := sameImport_awaited attempt status.failure clock later
      exact ⟨hsame.importRequest, hsame.historyIDBefore, hsame.outputPath, hsame.importStartedAt⟩
    · split <;> exact ⟨rfl, rfl, rfl, rfl⟩

theorem receipt_awaited (failure : String) (clock later : Time) :
    (awaited attempt failure clock later).importReceipt = attempt.importReceipt := by
  unfold awaited
  dsimp only
  split <;> split <;> rfl

/-- The receipt is the one of the attempt or the one of the answer. -/
theorem receipt_reconciled (answer : Except String ImportStatus) (clock later now : Time) :
    (reconciled attempt answer clock later now).importReceipt = attempt.importReceipt ∨
      ∃ status, answer = .ok status ∧
        (reconciled attempt answer clock later now).importReceipt = status.receipt := by
  cases answer with
  | error text => exact .inl rfl
  | ok status =>
    unfold reconciled
    dsimp only
    split
    · exact .inr ⟨status, rfl, rfl⟩
    split
    · exact .inl (receipt_awaited attempt status.failure clock later)
    · split <;> exact .inl rfl

theorem verdict_awaited {status : ImportStatus} (hfailed : status.Failed)
    (clock later now : Time) :
    Verdict attempt (.ok status) clock later
      { awaited attempt status.failure clock later with updatedAt := now } := by
  unfold awaited
  by_cases hunset : attempt.importTerminalAt = 0
  · simp only [if_pos hunset]
    split
    · exact .noticed rfl hfailed hunset rfl (.inr ⟨rfl, by assumption⟩)
    · exact .noticed rfl hfailed hunset rfl (.inl rfl)
  · simp only [if_neg hunset]
    split
    · exact .failed rfl hfailed hunset rfl rfl (by assumption)
    · exact .open_ rfl rfl

theorem verdict_reconciled (answer : Except String ImportStatus) (clock later now : Time) :
    Verdict attempt answer clock later (reconciled attempt answer clock later now) := by
  cases answer with
  | error text => exact .open_ rfl rfl
  | ok status =>
    unfold reconciled
    dsimp only
    split
    · exact .imported rfl (by assumption) rfl rfl rfl
    rename_i hreceipt
    split
    · exact verdict_awaited attempt ⟨not_not.mp hreceipt, by assumption⟩ clock later now
    · split <;> exact .open_ rfl rfl

end Reconcile

/-- An attempt that changes otherwise than by an answer keeps its stored time. -/
theorem importTerminalAt_of_written {frame : Frame} {copy attempt : Attempt}
    (follows : frame.Follows copy)
    (hwritten : frame.written = some attempt) (hsettle : frame ≠ .settle attempt) :
    attempt.importTerminalAt = copy.importTerminalAt := by
  cases follows with
  | repair | submit | submitting | check => cases hwritten
  | persist | finish =>
    cases hwritten
    rfl
  | @record answer now =>
    cases hwritten
    cases answer <;> rfl
  | settle =>
    cases hwritten
    exact absurd rfl hsettle

namespace Engine

/-- Between the two readings of the clock after the first failure for an
attempt, less than the grace period passes. -/
def Prompt (engine : Engine) : EngineEvent → Prop
  | .engine id (.checked (.ok status) clock later _) =>
    match engine.frames id with
    | some (.check attempt) =>
      status.Failed → attempt.importTerminalAt = 0 → later - clock < gracePeriod
    | _ => True
  | _ => True

instance (engine : Engine) (event : EngineEvent) : Decidable (Prompt engine event) := by
  unfold Prompt
  split
  · split <;> infer_instance
  · infer_instance

end Engine

section Runs

variable [JSONSerializer]

/-- What was stored with the intent stays when a copy that keeps it is written. -/
theorem SameImport.row {copy stored attempt row : Attempt} (same : SameImport copy attempt)
    (hcopied : copy.row = .ok stored) (hrow : attempt.row = .ok row) : SameImport stored row := by
  obtain ⟨_, _, hstored, -, rfl⟩ := Attempt.row_eq_ok.mp hcopied
  obtain ⟨_, _, hwritten, -, rfl⟩ := Attempt.row_eq_ok.mp hrow
  rw [same.importRequest, hstored] at hwritten
  exact ⟨(Except.ok.inj hwritten).symm, same.historyIDBefore, same.outputPath,
    same.importStartedAt⟩

theorem importTerminalAt_row {attempt row : Attempt} (hrow : attempt.row = .ok row) :
    row.importTerminalAt = attempt.importTerminalAt := by
  obtain ⟨_, _, -, -, rfl⟩ := Attempt.row_eq_ok.mp hrow
  rfl

/-! ## Reports of the past -/

/-- In the past of `past`, after `earlier`, `CheckImport` gave `answer` for a copy of the
attempt `stored` as it is in the store; `clock` and `later` are the times read
after it. -/
def Checked (past earlier : List (Engine × EngineEvent)) (id : JobID) (stored : Attempt)
    (answer : Except String ImportStatus) (clock later : Time) : Prop :=
  ∃ after found copy now,
    past = after ++ (found, .engine id (.checked answer clock later now)) :: earlier ∧
    found.frames id = some (.check copy) ∧ copy.row = .ok stored ∧
    found.store.attempts.find (id, stored.number) = some stored

/-- `CheckImport` returned a receipt for the attempt that is stored as `receipt`. -/
def Receipted (past : List (Engine × EngineEvent)) (id : JobID) (k : Nat) (receipt : RawMessage) :
    Prop :=
  ∃ earlier stored status clock later, Checked past earlier id stored (.ok status) clock later ∧
    stored.number = k ∧ status.receipt.column = .ok receipt

/-- `CheckImport` reported a failure without a receipt for the attempt at the
time `at_`, and this is when it set the stored time. -/
def Noticed (past : List (Engine × EngineEvent)) (id : JobID) (k : Nat) (at_ : Time) : Prop :=
  ∃ earlier stored status later, Checked past earlier id stored (.ok status) at_ later ∧
    stored.number = k ∧ status.Failed

/-- `CheckImport` reported a failure without a receipt for the attempt twice,
the grace period apart; the time of the first was in the store at the second. -/
def FailedTwice (past : List (Engine × EngineEvent)) (id : JobID) (k : Nat) : Prop :=
  ∃ earlier stored status clock later, Checked past earlier id stored (.ok status) clock later ∧
    stored.number = k ∧ status.Failed ∧ Noticed earlier id k stored.importTerminalAt ∧
    later - stored.importTerminalAt ≥ gracePeriod

section Past

variable {past earlier : List (Engine × EngineEvent)} {id : JobID} {k : Nat}
  {entry : Engine × EngineEvent}

theorem Checked.cons {stored : Attempt} {answer : Except String ImportStatus} {clock later : Time}
    (checked : Checked past earlier id stored answer clock later) :
    Checked (entry :: past) earlier id stored answer clock later := by
  obtain ⟨after, found, copy, now, rfl, hrest⟩ := checked
  exact ⟨entry :: after, found, copy, now, rfl, hrest⟩

theorem Receipted.cons {receipt : RawMessage} (receipted : Receipted past id k receipt) :
    Receipted (entry :: past) id k receipt := by
  obtain ⟨earlier, stored, status, clock, later, checked, hrest⟩ := receipted
  exact ⟨earlier, stored, status, clock, later, checked.cons, hrest⟩

theorem Noticed.cons {at_ : Time} (noticed : Noticed past id k at_) :
    Noticed (entry :: past) id k at_ := by
  obtain ⟨earlier, stored, status, later, checked, hrest⟩ := noticed
  exact ⟨earlier, stored, status, later, checked.cons, hrest⟩

theorem FailedTwice.cons (failed : FailedTwice past id k) : FailedTwice (entry :: past) id k := by
  obtain ⟨earlier, stored, status, clock, later, checked, hrest⟩ := failed
  exact ⟨earlier, stored, status, clock, later, checked.cons, hrest⟩

/-- An answer of `CheckImport`. -/
def EngineEvent.isAnswer : EngineEvent → Bool
  | .engine _ (.checked ..) => true
  | _ => false

/-- Two failures are two answers. -/
theorem FailedTwice.two_le_countP (failed : FailedTwice past id k) :
    2 ≤ past.countP fun entry => entry.2.isAnswer := by
  obtain ⟨earlier, stored, status, clock, later, ⟨after, found, copy, now, rfl, -⟩, -, -, hfirst,
    -⟩ := failed
  obtain ⟨oldest, -, -, -, ⟨between, first, -, at_, rfl, -⟩, -⟩ := hfirst
  simp only [List.countP_append, List.countP_cons, EngineEvent.isAnswer, if_true]
  omega

end Past

namespace Engine

variable {past : List (Engine × EngineEvent)} {engine engine' : Engine} {event : EngineEvent}

/-! ## What is stored was answered -/

/-- What a frame is about to store follows from an answer of the past. -/
def Answered (past : List (Engine × EngineEvent)) (engine : Engine) : Prop :=
  ∀ id attempt, engine.frames id = some (.settle attempt) →
    ∃ stored copy answer clock later now earlier,
      engine.store.attempts.find (id, stored.number) = some stored ∧ copy.row = .ok stored ∧
      attempt = reconciled copy answer clock later now ∧
      Checked past earlier id stored answer clock later

variable {id : JobID} {attempt copy row stored before : Attempt} {k : Nat} {clock later now : Time}

/-- Only an answer of `CheckImport` leads to a frame that stores one. -/
theorem checked_of_advance {move : Move} {store store' : Store} {frame : Option Frame}
    (hadvance : Advance id store frame move store' (some (.settle attempt))) :
    store' = store ∧ ∃ stored answer clock later now, frame = some (.check stored) ∧
      move = .checked answer clock later now ∧
      attempt = reconciled stored answer clock later now := by
  generalize hframe : some (Frame.settle attempt) = frame' at hadvance
  cases hadvance with
  | run | submit | submitted | stop => cases hframe
  | got =>
    unfold afterGet at hframe
    split at hframe
    · cases hframe
    split at hframe <;> cases hframe
  | loaded =>
    unfold afterLoad at hframe
    split at hframe <;> cases hframe
  | @repaired _ _ answer =>
    cases answer <;> cases hframe
  | started => split at hframe <;> cases hframe
  | @updated standing _ _ _ _ _ _ _ hafter =>
    rcases hafter with rfl | rfl
    · cases standing <;> cases hframe
    · cases hframe
  | checked =>
    cases hframe
    exact ⟨rfl, _, _, _, _, _, rfl, rfl, rfl⟩

theorem answered_of_reaches (hrun : Reaches Step init past engine) : Answered past engine := by
  refine Reaches.invariant Answered hrun (fun _ _ hframe => by cases hframe) ?_
  intro past engine event engine' hrun law hstep id attempt hframe
  have sound := sound_of_reaches hrun
  -- a frame that was there keeps its answer as long as the attempts of its job are untouched
  have hkept (hframe : engine.frames id = some (.settle attempt))
      (hfind : ∀ k, engine'.store.attempts.find (id, k) = engine.store.attempts.find (id, k)) :
      ∃ stored copy answer clock later now earlier,
        engine'.store.attempts.find (id, stored.number) = some stored ∧ copy.row = .ok stored ∧
        attempt = reconciled copy answer clock later now ∧
        Checked ((engine, event) :: past) earlier id stored answer clock later := by
    obtain ⟨stored, copy, answer, clock, later, now, earlier, hstored, hrest, heq, hchecked⟩ :=
      law id attempt hframe
    exact ⟨stored, copy, answer, clock, later, now, earlier, (hfind _).trans hstored, hrest, heq,
      hchecked.cons⟩
  cases cases_of_step hstep with
  | @engine mover move store frame hadvance =>
    change Function.update engine.frames mover frame id = _ at hframe
    by_cases hid : id = mover
    · subst hid
      rw [Function.update_self] at hframe
      subst hframe
      obtain ⟨rfl, copy, answer, clock, later, now, hcheck, rfl, rfl⟩ :=
        checked_of_advance hadvance
      have .follows found copied (.check _) := sound.holds id _ hcheck
      exact ⟨_, copy, answer, clock, later, now, past, found, copied, rfl, [], engine, copy, now,
        rfl, hcheck, copied, found⟩
    · rw [Function.update_of_ne hid] at hframe
      exact hkept hframe fun k => (sound.effect hadvance).find_of_ne hid k
  | other hquiet hcall =>
    exact hkept hframe fun k => by rw [Store.attempts_of_quiet hquiet hcall.2]
  | crash => cases hframe

/-- What a frame stores over `stored` follows from an answer for `stored`. -/
theorem answer_of_settle (hrun : Reaches Step init past engine)
    (hframe : engine.frames id = some (.settle attempt))
    (hstored : engine.store.attempts.find (id, k) = some stored)
    (hkey : attempt.key = stored.key) :
    ∃ copy answer clock later now earlier, copy.row = .ok stored ∧
      attempt = reconciled copy answer clock later now ∧
      Checked past earlier id stored answer clock later := by
  obtain ⟨previous, copy, answer, clock, later, now, earlier, hprevious, hcopied, heq, hchecked⟩ :=
    answered_of_reaches hrun id attempt hframe
  have hsame : previous.key = stored.key := by
    rw [Attempt.key_row hcopied, ← hkey, heq, ← overwrite_reconciled]
    rfl
  have hfound := Table.key_of_find hprevious
  change previous.key = _ at hfound
  rw [← hfound, hsame, show stored.key = (id, k) from Table.key_of_find hstored, hstored]
    at hprevious
  cases hprevious
  exact ⟨copy, answer, clock, later, now, earlier, hcopied, heq, hchecked⟩

/-- Every stored time is that of a failure of the past. -/
theorem noticed_of_reaches (hrun : Reaches Step init past engine) :
    ∀ id k attempt, engine.store.attempts.find (id, k) = some attempt →
      attempt.importTerminalAt ≠ 0 → Noticed past id k attempt.importTerminalAt := by
  refine Reaches.invariant (fun past engine => ∀ id k attempt,
    engine.store.attempts.find (id, k) = some attempt → attempt.importTerminalAt ≠ 0 →
      Noticed past id k attempt.importTerminalAt) hrun (fun _ _ _ hfind => by cases hfind) ?_
  intro past engine event engine' hrun law hstep id k attempt hfind hset
  have sound := sound_of_reaches hrun
  rcases (cases_of_step hstep).find sound id k with hsame | ⟨-, job, now, hcreated⟩ |
    ⟨stored, copy, frame, written, row, hstored, -, hframe, hwritten, hcopied, hfollows, hrow,
      hafter⟩
  · exact (law id k attempt (hsame ▸ hfind) hset).cons
  · rw [hfind] at hcreated
    cases hcreated
    exact absurd rfl hset
  · rw [hfind] at hafter
    cases hafter
    -- what is written has the time of the stored attempt
    have hold {copy : Attempt} (hcopied : copy.row = .ok stored)
        (hterminal : written.importTerminalAt = copy.importTerminalAt) :
        Noticed ((engine, event) :: past) id k attempt.importTerminalAt := by
      rw [importTerminalAt_row hrow, hterminal, ← importTerminalAt_row hcopied] at hset ⊢
      exact (law id k stored hstored hset).cons
    by_cases hsettle : frame = .settle written
    · subst hsettle
      have hkey := (hfollows.key hwritten).trans (Attempt.key_row hcopied).symm
      obtain ⟨copy, answer, clock, later, now, earlier, hcopied, rfl, hchecked⟩ :=
        answer_of_settle hrun hframe hstored hkey
      cases verdict_reconciled copy answer clock later now with
      | open_ _ hterminal => exact hold hcopied hterminal
      | imported _ _ _ _ hterminal => exact hold hcopied hterminal
      | failed _ _ _ hterminal => exact hold hcopied hterminal
      -- the one verdict that sets the time: it was read with a failure
      | noticed hanswer hfailed _ hterminal =>
        subst hanswer
        rw [importTerminalAt_row hrow, hterminal]
        exact ⟨earlier, stored, _, later, hchecked.cons, Store.number_of_find hstored, hfailed⟩
    · exact hold hcopied (importTerminalAt_of_written hfollows hwritten hsettle)

/-! ## How an import ends -/

/-- The receipt of an answer is not stored as NULL. -/
def Evident : EngineEvent → Prop
  | .engine _ (.checked (.ok status) _ _ _) =>
    status.receipt.len ≠ 0 → ∀ receipt ∈ status.receipt.column.toOption, receipt.len ≠ 0
  | _ => True

instance (event : EngineEvent) : Decidable (Evident event) := by
  unfold Evident
  split <;> infer_instance

/-- The answers of a run settle imports: failures are not settled by the clock of one
answer, and receipts are kept. -/
def Settling (past : List (Engine × EngineEvent)) : Prop :=
  ∀ entry ∈ past, Prompt entry.1 entry.2 ∧ Evident entry.2

instance (past : List (Engine × EngineEvent)) : Decidable (Settling past) :=
  inferInstanceAs (Decidable (∀ entry ∈ past, Prompt entry.1 entry.2 ∧ Evident entry.2))

theorem Settling.of_checked {earlier : List (Engine × EngineEvent)}
    {answer : Except String ImportStatus} (hsettling : Settling past)
    (hchecked : Checked past earlier id stored answer clock later) :
    ∃ found copy now, found.frames id = some (.check copy) ∧ copy.row = .ok stored ∧
      Prompt found (.engine id (.checked answer clock later now)) ∧
      Evident (.engine id (.checked answer clock later now)) := by
  obtain ⟨after, found, copy, now, rfl, hframe, hcopied, -⟩ := hchecked
  exact ⟨found, copy, now, hframe, hcopied,
    hsettling _ (List.mem_append_right _ List.mem_cons_self)⟩

/-- How an attempt `after` that was importing as `before` stands: it has what
was stored with the intent, and it ended only with a receipt or two failures. -/
structure Confirmed (past : List (Engine × EngineEvent)) (id : JobID) (before after : Attempt) :
    Prop where
  same : SameImport before after
  number : after.number = before.number
  ends : after.state = .importing ∨
    (after.state = .imported ∧ after.importReceipt.len ≠ 0 ∧
      Receipted past id before.number after.importReceipt) ∨
    (after.state = .failed ∧ FailedTwice past id before.number)

theorem Confirmed.cons {after : Attempt} {entry : Engine × EngineEvent}
    (confirmed : Confirmed past id before after) : Confirmed (entry :: past) id before after := by
  refine ⟨confirmed.same, confirmed.number, confirmed.ends.imp_right (Or.imp ?_ ?_)⟩
  · rintro ⟨hstate, hreceipt, hreceipted⟩
    exact ⟨hstate, hreceipt, hreceipted.cons⟩
  · rintro ⟨hstate, hfailed⟩
    exact ⟨hstate, hfailed.cons⟩

/-- Storing an answer confirms the import or leaves it open. -/
theorem Confirmed.settle {answer : Except String ImportStatus}
    {earlier : List (Engine × EngineEvent)} (hrun : Reaches Step init past engine)
    (hsettling : Settling past) (confirmed : Confirmed past id before stored)
    (himporting : stored.state = .importing) (hcopied : copy.row = .ok stored)
    (hrow : (reconciled copy answer clock later now).row = .ok row)
    (hnumber : row.number = stored.number)
    (hchecked : Checked past earlier id stored answer clock later) :
    Confirmed past id before row := by
  refine ⟨confirmed.same.trans
    ((sameImport_reconciled copy answer clock later now).row hcopied hrow),
    hnumber.trans confirmed.number, ?_⟩
  have hopen (hstate : (reconciled copy answer clock later now).state = copy.state) :
      row.state = .importing := by
    rw [Attempt.state_row hrow, hstate, ← Attempt.state_row hcopied, himporting]
  cases verdict_reconciled copy answer clock later now with
  | open_ hstate => exact .inl (hopen hstate)
  | imported hanswer hreceipt hstate hstored =>
    subst hanswer
    obtain ⟨_, _, _, -, -, -, hevident⟩ := hsettling.of_checked hchecked
    obtain ⟨_, receipt, -, hcolumn, rfl⟩ := Attempt.row_eq_ok.mp hrow
    rw [hstored] at hcolumn
    exact .inr (.inl ⟨hstate, hevident hreceipt receipt (by rw [hcolumn]; rfl),
      earlier, stored, _, clock, later, hchecked, confirmed.number, hcolumn⟩)
  | noticed hanswer hfailed hunset _ hstate =>
    rcases hstate with hstate | ⟨-, hlasted⟩
    · exact .inl (hopen hstate)
    · -- the readings of one answer are less than the grace period apart
      subst hanswer
      obtain ⟨_, _, _, hframe, hsame, hprompt, -⟩ := hsettling.of_checked hchecked
      rw [← importTerminalAt_row hcopied, importTerminalAt_row hsame] at hunset
      simp only [Prompt, hframe] at hprompt
      exact absurd hlasted (Int.not_le.mpr (hprompt hfailed hunset))
  | failed hanswer hfailed hset _ hstate hlasted =>
    subst hanswer
    rw [← importTerminalAt_row hcopied] at hset hlasted
    have hnoticed : Noticed earlier id before.number stored.importTerminalAt := by
      -- the stored time was there when `CheckImport` answered, so an earlier failure set it
      obtain ⟨after, found, _, at_, rfl, -, -, hfound⟩ := hchecked
      rw [← confirmed.number]
      exact noticed_of_reaches hrun.split.1 id _ stored hfound hset
    exact .inr (.inr ⟨(Attempt.state_row hrow).trans hstate, earlier, stored, _, clock, later,
      hchecked, confirmed.number, hfailed, hnoticed, hlasted⟩)

theorem Confirmed.step (hrun : Reaches Step init past engine) (hsettling : Settling past)
    (hstored : engine.store.attempts.find (id, k) = some stored)
    (confirmed : Confirmed past id before stored) (hstep : engine.Step event engine') :
    ∃ after, engine'.store.attempts.find (id, k) = some after ∧
      Confirmed ((engine, event) :: past) id before after := by
  rcases (cases_of_step hstep).find (sound_of_reaches hrun) id k with hsame | ⟨hnone, -⟩ |
    ⟨found, copy, frame, written, row, hfound, hworking, hframe, hwritten, hcopied, hfollows, hrow,
      hafter⟩
  -- the attempt is left alone, was created now, or is written from a copy
  · exact ⟨stored, hsame.trans hstored, confirmed.cons⟩
  · rw [hstored] at hnone
    cases hnone
  · rw [hstored] at hfound
    cases hfound
    -- only a working attempt is written, and of those that are confirmed only an importing one is
    -- working
    have himporting : stored.state = .importing := by
      rcases confirmed.ends with hstate | ⟨hstate, -⟩ | ⟨hstate, -⟩
      · exact hstate
      · rw [hstate] at hworking
        cases hworking
      · rw [hstate] at hworking
        cases hworking
    have hcopy : copy.state = .importing := (Attempt.state_row hcopied).symm.trans himporting
    have hnumber : row.number = stored.number := by
      rw [Store.number_of_find hafter, Store.number_of_find hstored]
    have hkey := (hfollows.key hwritten).trans (Attempt.key_row hcopied).symm
    refine ⟨row, hafter, Confirmed.cons ?_⟩
    cases hfollows with
    -- of the frames that write, two are of running attempts and `record` only notes the command
    | repair | submit | submitting | check => cases hwritten
    | persist hrunning => cases hcopy.symm.trans hrunning
    | finish hrunning => cases hcopy.symm.trans hrunning
    | @record answer now _ =>
      cases hwritten
      refine ⟨confirmed.same.trans ((sameImport_submitted copy answer now).row hcopied hrow),
        hnumber.trans confirmed.number, .inl ?_⟩
      rw [Attempt.state_row hrow, state_submitted, hcopy]
    | settle hnot =>
      cases hwritten
      obtain ⟨copy, answer, clock, later, now, earlier, hcopied, heq, hchecked⟩ :=
        answer_of_settle hrun hframe hstored hkey
      rw [heq] at hrow
      exact confirmed.settle hrun hsettling himporting hcopied hrow hnumber hchecked

/-- In every run in which less than the grace period passes between the two
readings of the clock after a first failure, and no receipt is stored as NULL: an
attempt that was stored as importing keeps what was stored with the intent, and it is
still importing, or imported with what a receipt `CheckImport` returned for it is
marshalled to, or failed after two failures the grace period apart, the first at the
stored time. -/
theorem importing_ends_confirmed (hrun : Reaches Step init past engine)
    (hsettling : Settling past) {found : Engine} {event : EngineEvent}
    (hmem : (found, event) ∈ past) {id : JobID} {k : Nat} {before : Attempt}
    (hfound : found.store.attempts.find (id, k) = some before)
    (himporting : before.state = .importing) :
    ∃ after, engine.store.attempts.find (id, k) = some after ∧ Confirmed past id before after := by
  refine Reaches.invariant (fun past engine => Settling past →
    (found, event) ∈ past → ∃ after, engine.store.attempts.find (id, k) = some after ∧
      Confirmed past id before after) hrun (fun _ hmem => by cases hmem) ?_ hsettling hmem
  intro past engine latest engine' hrun law hstep hsettling hmem
  have hearlier : Settling past :=
    fun entry hentry => hsettling entry (List.mem_cons_of_mem _ hentry)
  rcases List.mem_cons.mp hmem with heq | hmem
  · cases heq
    exact Confirmed.step hrun hearlier hfound ⟨.refl before, rfl, .inl himporting⟩ hstep
  · obtain ⟨stored, hstored, confirmed⟩ := law hearlier hmem
    exact confirmed.step hrun hearlier hstored hstep

end Engine

end Runs

namespace Engine

attribute [local instance] compactSerializer

/-- A run up to the first answer of `CheckImport`. -/
def submittedEvents : List EngineEvent :=
  [.other (.observe (Job.zero .radarr)), .other (.setPlan 1 "" (ascii "1") "" 1),
    .engine 1 .run, .engine 1 .got, .engine 1 (.commit 2 true),
    .engine 1 (.repaired (.ok ⟨"out", ascii "[7]", 3⟩) 4), .engine 1 (.commit 4 true),
    .engine 1 .submit, .engine 1 (.submitted (.ok 9) 5), .engine 1 (.commit 5 true)]

/-- Two failures, thirty seconds apart. -/
def failingEvents : List EngineEvent :=
  submittedEvents ++
    [.engine 1 (.checked (.ok ⟨none, "rejected"⟩) 6 6 6), .engine 1 (.commit 6 true),
      .engine 1 .run, .engine 1 .got, .engine 1 (.loaded 7),
      .engine 1 (.checked (.ok ⟨none, "rejected"⟩) 30000000006 30000000006 30000000006),
      .engine 1 (.commit 30000000006 true)]

theorem importing_ends_confirmed_failing :
    ∃ past engine found event before,
      execute next [] init failingEvents = some (past, engine) ∧
      Settling past ∧ (found, event) ∈ past ∧
      found.store.attempts.find (1, 1) = some before ∧ before.state = .importing ∧
      (engine.store.attempts.find (1, 1)).map Attempt.state = some .failed ∧
      ∃ after, engine.store.attempts.find (1, 1) = some after ∧ Confirmed past 1 before after :=
  ⟨_, _, _, _, _, rfl, by decide, List.mem_cons_self, rfl, rfl, rfl,
    importing_ends_confirmed
      (Reaches.execute (fun _ _ _ hnext => hnext) failingEvents .start rfl) (by decide)
      List.mem_cons_self rfl rfl⟩

/-- One failure, with thirty seconds between the readings of the clock. -/
def stalledEvents : List EngineEvent :=
  submittedEvents ++
    [.engine 1 (.checked (.ok ⟨none, "rejected"⟩) 6 30000000006 30000000006),
      .engine 1 (.commit 30000000006 true)]

theorem stalled_failure_ends_import :
    ∃ past engine found event before after,
      Reaches Step init past engine ∧ (found, event) ∈ past ∧
      found.store.attempts.find (1, 1) = some before ∧ before.state = .importing ∧
      engine.store.attempts.find (1, 1) = some after ∧ after.state = .failed ∧
      ¬ FailedTwice past 1 1 := by
  refine ⟨_, _, _, _, _, _, Reaches.execute (fun _ _ _ hnext => hnext) stalledEvents .start rfl,
    List.mem_cons_self, rfl, rfl, rfl, rfl, fun hfailed => ?_⟩
  exact absurd hfailed.two_le_countP (by decide)

end Engine

end NixConfig.MediaRepair.Repair
