import FinDB.Lib.Machine
import FinDB.Lib.Table
import FinDB.Staging.Clock

/-! # The staging database

It records a provider attempt before a provider process is started. Its methods are one
transaction each, except those that write in autocommit: there the row and the stored
aggregates are statements of their own. -/
namespace FinDB.Staging
open FinDB.Lib
open FinDB.Scheduler (Datetime)

abbrev Bytes := List UInt8

def MAX_BYTES : Nat := 1024 * 1024

/-- `PAYLOAD_REASONS`. -/
def payloadReasons : List String :=
  ["kbars_shape", "kbars_scalar", "child_boundary", "ipc_encode", "ipc_size", "ipc_transport",
    "ipc_schema", "snapshot", "contract_access", "contract_mapping"]

/-! ## The tables -/

inductive Aggregate where
  | pending | running | completed | failed
deriving DecidableEq, Repr

inductive Preflight where
  | pending | validated
deriving DecidableEq, Repr

inductive Status where
  | pending | acquiring | acquired | rawUploading | rawPersisted | prepared | delivered | terminal
  | failed
deriving DecidableEq, Repr

inductive Outcome where
  | started | success | failed | waiting
deriving DecidableEq, Repr

/-- `daily_updates`. -/
structure DailyUpdate where
  dailyId : String
  targetDate : CivilDate
  universeId : String
  dailyUpdateId : String
  executionDate : CivilDate
  preflightStatus : Preflight
  status : Aggregate

/-- `dataset_snapshots`. -/
structure DatasetSnapshot where
  dailyId : String
  datasetKey : String
  snapshotId : String
  status : Aggregate

def DatasetSnapshot.key (r : DatasetSnapshot) : String × String := (r.dailyId, r.datasetKey)

/-- `snapshot_sequences`. -/
structure Sequence where
  dailyId : String
  symbol : String
  datasetKey : String
  sequenceNo : Nat
  sequenceCount : Nat
  attempts : Nat
  leaseUntil : Option UtcTime
  snapshot : Option Bytes
  rawRef : Option String
  rawSha256 : Option String
  rawSize : Option Nat
  prepared : Option Bytes
  preparedSha256 : Option String
  sourceAttemptId : Option String
  sourceRunId : Option String
  terminalStatus : Option String
  terminalReason : Option String
  status : Status

def Sequence.key (r : Sequence) : String × String := (r.dailyId, r.symbol)

/-- `provider_attempts`. -/
structure Attempt where
  dailyId : String
  symbol : String
  attemptNo : Nat
  createdAt : UtcTime
  outcome : Outcome
  code : Option String
  reason : Option String

def Attempt.key (r : Attempt) : String × String × Nat := (r.dailyId, r.symbol, r.attemptNo)

/-! ### Their constraints -/

/-- `x IS NULL OR p x`. -/
def nullOr {α : Type} (p : α → Bool) (x : Option α) : Bool := x.all p

def lengthWithin (low high : Nat) (n : Nat) : Bool := decide (low ≤ n) && decide (n ≤ high)

/-- The `CHECK` clauses of a row; a comparison with NULL passes. -/
def Sequence.check (r : Sequence) : Bool :=
  lengthWithin 1 99999 r.sequenceNo && lengthWithin r.sequenceNo 99999 r.sequenceCount &&
  nullOr (fun b => lengthWithin 1 1048576 b.length) r.snapshot &&
  nullOr (fun c => lengthWithin 1 64 c.length) r.terminalStatus &&
  nullOr payloadReasons.contains r.terminalReason &&
  (match r.rawRef, r.rawSha256, r.rawSize with
    | none, _, none => true
    | some _, some _, size => nullOr (lengthWithin 1 1048576) size
    | _, _, _ => false) &&
  (r.prepared.isNone || (r.rawRef.isSome && r.rawSha256.isSome)) &&
  (match r.prepared, r.preparedSha256 with
    | none, none => true
    | some _, some digest => digest.length == 64
    | some _, none => true
    | none, some _ => false) &&
  (r.sourceAttemptId.isNone == r.sourceRunId.isNone) &&
  (r.terminalReason.isNone || nullOr (· == "KBARS_PAYLOAD") r.terminalStatus)

def Attempt.check (r : Attempt) : Bool :=
  nullOr (fun c => lengthWithin 1 64 c.length) r.code &&
  nullOr payloadReasons.contains r.reason &&
  (r.reason.isNone || nullOr (· == "KBARS_PAYLOAD") r.code)

structure Store where
  dailyUpdates : Table DailyUpdate.dailyId
  datasetSnapshots : Table DatasetSnapshot.key
  sequences : Table Sequence.key
  providerAttempts : Table Attempt.key
  limiter : List UtcTime

def Store.empty : Store := ⟨.empty, .empty, .empty, .empty, []⟩

/-- `UPDATE snapshot_sequences`. -/
def Store.updateSequences (s : Store) (p : Sequence → Bool) (f : Sequence → Sequence)
    (hf : ∀ r, (f r).key = r.key := by intro _; rfl) : Except Err Store := do
  let sequences := s.sequences.update p f hf
  ensure (sequences.rows.all Sequence.check) .integrity
  return { s with sequences }

/-- `UPDATE provider_attempts`. -/
def Store.updateAttempts (s : Store) (p : Attempt → Bool) (f : Attempt → Attempt)
    (hf : ∀ r, (f r).key = r.key := by intro _; rfl) : Except Err Store := do
  let providerAttempts := s.providerAttempts.update p f hf
  ensure (providerAttempts.rows.all Attempt.check) .integrity
  return { s with providerAttempts }

/-! ## The stored aggregates -/

/-- The status of a data set from `(status, terminal_status)` of its sequences. -/
def datasetAggregate (rows : List Sequence) : Aggregate :=
  if rows.any fun r => r.status == .failed ||
      (r.status == .terminal && r.terminalStatus != some "completed") then .failed
  else if !rows.isEmpty &&
      rows.all fun r => r.status == .terminal && r.terminalStatus == some "completed" then .completed
  else if rows.any fun r => r.status != .pending then .running
  else .pending

/-- `_aggregate_status`. -/
def aggregateStatus (statuses : List Aggregate) : Aggregate :=
  if statuses.any (· == .failed) then .failed
  else if !statuses.isEmpty && statuses.all (· == .completed) then .completed
  else if statuses.any (· != .pending) then .running
  else .pending

def Store.refreshDataset (s : Store) (key : String × String) : Store :=
  let rows := s.sequences.rows.filter fun r => decide ((r.dailyId, r.datasetKey) = key)
  { s with datasetSnapshots :=
      s.datasetSnapshots.modify key fun r => { r with status := datasetAggregate rows } }

def Store.refreshDaily (s : Store) (dailyId : String) : Store :=
  let statuses := (s.datasetSnapshots.rows.filter fun r => r.dailyId == dailyId).map (·.status)
  { s with dailyUpdates :=
      s.dailyUpdates.modify dailyId fun r => { r with status := aggregateStatus statuses } }

/-- `SELECT dataset_key FROM dataset_snapshots WHERE daily_id=?`, with the id. -/
def Store.datasetsOf (s : Store) (dailyId : String) : List (String × String) :=
  (s.datasetSnapshots.rows.filter fun r => r.dailyId == dailyId).map DatasetSnapshot.key

/-- `_refresh_statuses`. -/
def Store.refreshStatuses (s : Store) (dailyId : String) : Store :=
  ((s.datasetsOf dailyId).foldl Store.refreshDataset s).refreshDaily dailyId

/-! ## Plans -/

/-- A row of the manifest. -/
structure PlanRow where
  symbol : String
  datasetKey : String
  sequence : Nat
  sequenceCount : Nat
deriving DecidableEq, Repr

structure Plan where
  dailyId : String
  targetDate : CivilDate
  universeId : String
  dailyUpdateId : String
  rows : List PlanRow
  executionDate : CivilDate

def hexDigits : List Char := "0123456789abcdef".toList

/-- What the database computes with: `hashlib.sha256` as hex digits, `_stable_id`, and
`_validate_prepared` of a row joined with its data set and its update. -/
structure Platform where
  sha256 : Bytes → String
  hexdigest : ∀ b, (sha256 b).length = 64 ∧ (sha256 b).toList.all hexDigits.contains = true
  stableId : List String → String
  /-- The body is JSON with the four fields of a delivery. -/
  deliverable : Bytes → Bool
  validPrepared : DailyUpdate → DatasetSnapshot → Sequence → Bytes → Bool
  /-- The columns that `_validate_prepared` does not read. -/
  unread : ∀ u u' d d' q q' body, u.targetDate = u'.targetDate → u.universeId = u'.universeId →
    u.dailyUpdateId = u'.dailyUpdateId → d.snapshotId = d'.snapshotId → q.key = q'.key →
    q.datasetKey = q'.datasetKey → q.sequenceNo = q'.sequenceNo →
    q.sequenceCount = q'.sequenceCount → q.rawRef = q'.rawRef → q.rawSha256 = q'.rawSha256 →
    q.snapshot = q'.snapshot → validPrepared u d q body = validPrepared u' d' q' body

variable (P : Platform)

/-- `INSERT OR IGNORE INTO snapshot_sequences`. -/
def Store.insertSequence (s : Store) (dailyId : String) (row : PlanRow) : Store :=
  let r : Sequence :=
    ⟨dailyId, row.symbol, row.datasetKey, row.sequence, row.sequenceCount, 0, none, none, none, none,
      none, none, none, none, none, none, none, .pending⟩
  -- UNIQUE(daily_id, dataset_key, sequence_no) and the checks are ignored the same way
  let clash := s.sequences.rows.any fun q =>
    decide ((q.dailyId, q.datasetKey, q.sequenceNo) = (r.dailyId, r.datasetKey, r.sequenceNo))
  if clash || !r.check then s else { s with sequences := s.sequences.insertNew r }

def Store.insertDataset (s : Store) (dailyId : String) (row : PlanRow) : Store :=
  let r : DatasetSnapshot :=
    ⟨dailyId, row.datasetKey, P.stableId [dailyId, row.datasetKey, "snapshot"], .pending⟩
  { s with datasetSnapshots := s.datasetSnapshots.insertNew r }

def Store.insertRow (s : Store) (dailyId : String) (row : PlanRow) : Store :=
  (s.insertDataset P dailyId row).insertSequence dailyId row

def PlanRow.snapshot (dailyId : String) (row : PlanRow) : String × String :=
  (row.datasetKey, P.stableId [dailyId, row.datasetKey, "snapshot"])

/-- Equality of two sets given as lists. -/
def sameSet {α : Type} [DecidableEq α] (xs ys : List α) : Bool :=
  xs.all (ys.contains ·) && ys.all (xs.contains ·)

def DailyUpdate.identity (r : DailyUpdate) : CivilDate × String × String × CivilDate :=
  (r.targetDate, r.universeId, r.dailyUpdateId, r.executionDate)

def Sequence.planRow (r : Sequence) : PlanRow :=
  ⟨r.symbol, r.datasetKey, r.sequenceNo, r.sequenceCount⟩

/-- `ensure`. -/
def Store.ensurePlan (s : Store) (plan : Plan) : Except Err Store := do
  let daily : DailyUpdate :=
    ⟨plan.dailyId, plan.targetDate, plan.universeId, plan.dailyUpdateId, plan.executionDate, .pending,
      .pending⟩
  let s := { s with dailyUpdates := s.dailyUpdates.insertNew daily }
  let existing := (s.dailyUpdates.find? plan.dailyId).map DailyUpdate.identity
  let identity := (plan.targetDate, plan.universeId, plan.dailyUpdateId, plan.executionDate)
  ensure (existing == some identity) (.state "daily update identity changed")
  let s := plan.rows.foldl (fun s row => s.insertRow P plan.dailyId row) s
  let snapshots := (s.datasetSnapshots.rows.filter fun r => r.dailyId == plan.dailyId).map
    fun r => (r.datasetKey, r.snapshotId)
  let sequences := (s.sequences.rows.filter fun r => r.dailyId == plan.dailyId).map Sequence.planRow
  ensure (sameSet snapshots (plan.rows.map (PlanRow.snapshot P plan.dailyId)) &&
    sameSet sequences plan.rows) (.state "staging plan identity changed")
  return s.refreshStatuses plan.dailyId

end FinDB.Staging
