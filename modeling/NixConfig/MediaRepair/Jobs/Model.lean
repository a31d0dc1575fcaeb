/-
# Jobs, attempts and planning results

The rows of the repair database and the values around them. A job follows one
queue entry of one service; an attempt is one execution of a job's plan; a
planning result remembers what was decided, or how often deciding failed, for
one planning fingerprint at one operator revision.

Times are nanoseconds since the zero `time.Time`, so `IsZero` is equality with
`0`; a raw message is a byte string or nil. Identifiers and counters are
natural numbers: the store only ever assigns, increments and compares them.

The columns of raw messages are marshalled when a row is written. What they are
marshalled to is a parameter.
-/

import Mathlib.Data.List.Basic

namespace NixConfig.MediaRepair.Jobs

/-- The service whose queue a job follows. -/
inductive Service | radarr | lidarr
  deriving DecidableEq, Repr

/-- The states a job or an attempt can be in. -/
inductive State
  | observed | ready | running | importing | imported | blocked | failed | removed | removing
  deriving DecidableEq, Repr

/-- A state in which some process owns the job. -/
def State.active : State → Bool
  | .running | .importing | .removing => true
  | _ => false

/-- The operator request a job is waiting for. The column is a string; any text
other than the two known actions is kept as it is. -/
inductive Action
  | none | reconsider | delete
  | other (text : String)
  deriving DecidableEq, Repr

/-- Nanoseconds since the zero time. -/
abbrev Time := Int

/-- A span of time in nanoseconds. -/
abbrev Duration := Int

def second : Duration := 1000000000

def minute : Duration := 60 * second

/-- A `json.RawMessage`: nil, or some bytes. -/
abbrev RawMessage := Option (List UInt8)

/-- The length Go reports for a raw message; nil has length zero. -/
def RawMessage.len (message : RawMessage) : Nat := (message.getD []).length

/-- The serializer `json` of the columns of raw messages: `json.Marshal` when a row is
written, `json.Unmarshal` when it is read. -/
class JSONSerializer where
  /-- What is read back of a message, or why it is refused: it is not JSON. -/
  marshal : RawMessage → Except String RawMessage
  /-- nil is stored as NULL. -/
  marshal_none : marshal none = .ok none
  /-- What was read back is stored as it is. -/
  marshal_marshal : ∀ {message stored}, marshal message = .ok stored →
    marshal stored = .ok stored

abbrev JobID := Nat

/-- One queue entry of a service. -/
structure QueueKey where
  queueID : Int
  downloadID : String
  deriving DecidableEq, Repr

/-- A job row. The two fields that are never stored, `previousPlanningFingerprint`
and `planningChange`, travel with an observation only. -/
structure Job where
  id : JobID
  service : Service
  queueID : Int
  downloadID : String
  title : String
  sourceFingerprint : String
  planningFingerprint : String
  previousPlanningFingerprint : String
  planningChange : String
  stableSince : Time
  evidence : RawMessage
  collectionError : String
  plan : RawMessage
  guidance : String
  runtimeToleranceMS : Int
  retryAt : Time
  planningAttempts : Nat
  pendingAction : Action
  revision : Nat
  inQueue : Bool
  state : State
  reason : String
  updatedAt : Time
  deriving DecidableEq, Repr

/-- The unique index over a job's queue identity. -/
def Job.identity (job : Job) : Service × Int × String :=
  (job.service, job.queueID, job.downloadID)

def Job.queueKey (job : Job) : QueueKey :=
  ⟨job.queueID, job.downloadID⟩

/-- The zero value of the Go struct, for one service. -/
def Job.zero (service : Service) : Job where
  id := 0
  service := service
  queueID := 0
  downloadID := ""
  title := ""
  sourceFingerprint := ""
  planningFingerprint := ""
  previousPlanningFingerprint := ""
  planningChange := ""
  stableSince := 0
  evidence := none
  collectionError := ""
  plan := none
  guidance := ""
  runtimeToleranceMS := 0
  retryAt := 0
  planningAttempts := 0
  pendingAction := .none
  revision := 0
  inQueue := false
  state := .observed
  reason := ""
  updatedAt := 0

/-- An attempt row: one execution of a plan, with the evidence that an
interrupted import is recovered from. -/
structure Attempt where
  jobID : JobID
  number : Nat
  state : State
  plan : RawMessage
  outputPath : String
  importRequest : RawMessage
  historyIDBefore : Int
  commandID : Int
  importStartedAt : Time
  importTerminalAt : Time
  importReceipt : RawMessage
  reason : String
  startedAt : Time
  updatedAt : Time
  deriving DecidableEq, Repr

def Attempt.key (attempt : Attempt) : JobID × Nat := (attempt.jobID, attempt.number)

/-- The attempt `Store.Start` creates. -/
def Attempt.create (job : Job) (number : Nat) (at_ : Time) : Attempt where
  jobID := job.id
  number := number
  state := .running
  plan := job.plan
  outputPath := ""
  importRequest := none
  historyIDBefore := 0
  commandID := 0
  importStartedAt := 0
  importTerminalAt := 0
  importReceipt := none
  reason := ""
  startedAt := at_
  updatedAt := at_

/-- What planning one input at one revision came to. -/
structure PlanningResult where
  jobID : JobID
  fingerprint : String
  revision : Nat
  complete : Bool
  attempts : Nat
  retryAt : Time
  reason : String
  plan : RawMessage
  deriving DecidableEq, Repr

def PlanningResult.key (result : PlanningResult) : JobID × String × Nat :=
  (result.jobID, result.fingerprint, result.revision)

/-- The result to remember for the current input of a job. -/
def PlanningResult.ofJob (job : Job) : PlanningResult where
  jobID := job.id
  fingerprint := job.planningFingerprint
  revision := job.revision
  complete := job.state ≠ .observed
  attempts := job.planningAttempts
  retryAt := job.retryAt
  reason := job.reason
  plan := job.plan

/-- Why a store call is refused. -/
inductive Error
  /-- No row under the given key. -/
  | notFound
  /-- The job changed or the operation is not valid in its current state. -/
  | conflict
  /-- Another job already follows the queue entry. -/
  | duplicate
  /-- A download matches several queue entries. -/
  | ambiguous
  /-- A raw message is not JSON. -/
  | marshal (text : String)
  deriving DecidableEq, Repr

/-- The texts of errors. -/
def Error.text : Error → String
  | .notFound => "record not found"
  | .conflict => "job changed or operation is not valid in its current state"
  | .duplicate => "UNIQUE constraint failed"
  | .ambiguous => "download matches multiple queue entries; cannot follow changed queue ID"
  | .marshal text => text

/-- A job with other evidence. -/
abbrev Job.withEvidence (job : Job) (evidence : RawMessage) : Job := { job with evidence }

section Columns

variable [JSONSerializer]

/-- What a column holds once a message was written to it. -/
def RawMessage.column (message : RawMessage) : Except Error RawMessage :=
  (JSONSerializer.marshal message).mapError .marshal

/-- An attempt whose request and receipt were written. -/
def Attempt.row (attempt : Attempt) : Except Error Attempt := do
  let importRequest ← attempt.importRequest.column
  let importReceipt ← attempt.importReceipt.column
  return { attempt with importRequest, importReceipt }

end Columns

/-- A text without the blanks outside its strings. The flag says whether it starts inside
one. -/
def compact : Bool → List UInt8 → List UInt8
  | _, [] => []
  | quoted, byte :: rest =>
    if byte = 0x22 then byte :: compact (!quoted) rest
    else if !quoted ∧ byte ∈ [0x20, 0x09, 0x0A, 0x0D] then compact quoted rest
    else byte :: compact quoted rest

theorem compact_compact (quoted : Bool) (text : List UInt8) :
    compact quoted (compact quoted text) = compact quoted text := by
  induction text generalizing quoted with
  | nil => rfl
  | cons byte rest ih =>
    rw [compact]
    split_ifs with hquote hblank
    · rw [compact, if_pos hquote, ih]
    · exact ih quoted
    · rw [compact, if_neg hquote, if_neg hblank, ih]

/-- Marshalling by removing blanks. Of texts that are not JSON it refuses those that do not
start with a visible character. -/
def marshalCompact : RawMessage → Except String RawMessage
  | none => .ok none
  | some text =>
    let text := compact false text
    if text = [0x6E, 0x75, 0x6C, 0x6C] then .ok none
    else if text.head?.any (0x20 < ·) then .ok (some text)
    else .error "unexpected end of JSON input"

theorem marshalCompact_idem {message stored : RawMessage}
    (hmarshal : marshalCompact message = .ok stored) : marshalCompact stored = .ok stored := by
  cases message with
  | none => cases hmarshal; rfl
  | some text =>
    simp only [marshalCompact] at hmarshal
    split_ifs at hmarshal with hnull hstart
    · cases hmarshal
      rfl
    · cases hmarshal
      simp only [marshalCompact, compact_compact, if_neg hnull, if_pos hstart]

/-- A serializer for JSON that has no escapes and needs none. -/
@[reducible] def compactSerializer : JSONSerializer :=
  ⟨marshalCompact, rfl, marshalCompact_idem⟩

/-- A message of ASCII characters. -/
def ascii (text : String) : RawMessage := some (text.toList.map fun c => UInt8.ofNat c.toNat)

/-! ## Following a queue entry -/

/-- The loop of `MatchQueue` over the remaining candidates, with the index of
the next one, the last download match and the number of download matches. -/
def matchQueueFrom (wanted : QueueKey) :
    List QueueKey → Nat → Option Nat → Nat → Except Error (Option Nat)
  | [], _, found, count => if count > 1 then .error .ambiguous else .ok found
  | candidate :: rest, index, found, count =>
    if candidate = wanted then
      .ok (some index)
    else if wanted.downloadID ≠ "" ∧ candidate.downloadID = wanted.downloadID then
      matchQueueFrom wanted rest (index + 1) (some index) (count + 1)
    else
      matchQueueFrom wanted rest (index + 1) found count

/-- The index of the entry itself, or else of the only entry of its download. -/
def matchQueue (wanted : QueueKey) (candidates : List QueueKey) : Except Error (Option Nat) :=
  matchQueueFrom wanted candidates 0 none 0

end NixConfig.MediaRepair.Jobs
