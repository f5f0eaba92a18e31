import FinDB.Lib.Raise
import FinDB.Lib.Table
import FinDB.Vocabulary

/-! # Jobs, outbox rows and workers

The normalization queue is three tables, a broker that may lose or repeat what it
was given, and any number of workers between their statements. A transaction that
locks what it reads is one step; a worker that reads without a lock keeps what it
read, and its session writes back only the attributes that it changed. -/
namespace FinDB.Normalization
open FinDB.Lib

/-! ## The tables -/

/-- `RunFailureCode`. -/
inductive FailureCode where
  | datasetContractInvalid | datasetInactive | datasetNotFound | eodPartitionUnavailable
  | normalizerNotConfigured | rawPayloadMissing | retryExhausted
deriving DecidableEq, Repr

def FailureCode.name : FailureCode → String
  | .datasetContractInvalid => "DATASET_CONTRACT_INVALID"
  | .datasetInactive => "DATASET_INACTIVE"
  | .datasetNotFound => "DATASET_NOT_FOUND"
  | .eodPartitionUnavailable => "EOD_PARTITION_UNAVAILABLE"
  | .normalizerNotConfigured => "NORMALIZER_NOT_CONFIGURED"
  | .rawPayloadMissing => "RAW_PAYLOAD_MISSING"
  | .retryExhausted => "RETRY_EXHAUSTED"

/-- `ingestion_run`, the columns a worker reads or writes. -/
structure Run where
  runId : Uuid
  datasetKey : DatasetKey
  status : RunStatus
  attemptCount : Nat
  startedAt : Option Instant
  completedAt : Option Instant
  nextRetryAt : Option Instant
  failureCode : Option FailureCode
  errorMessage : Option String
  totalRecords : Nat
  successRecords : Nat
  failedRecords : Nat
deriving DecidableEq, Repr

/-- `normalization_job`. -/
structure Job where
  jobId : Uuid
  runId : Uuid
  datasetKey : DatasetKey
  status : RunStatus
  deliveryId : Uuid
  attemptCount : Nat
  maxAttempts : Nat
  availableAt : Instant
  leaseExpiresAt : Option Instant
  lastError : Option String
  createdAt : Instant
  updatedAt : Instant
  completedAt : Option Instant
deriving DecidableEq, Repr

inductive OutboxStatus where
  | pending | publishing | published
deriving DecidableEq, Repr

/-- `status IN ('pending', 'publishing')`. -/
def OutboxStatus.active : OutboxStatus → Bool
  | .pending | .publishing => true
  | .published => false

/-- `normalization_outbox`. -/
structure Outbox where
  outboxId : Uuid
  jobId : Uuid
  runId : Uuid
  deliveryId : Uuid
  status : OutboxStatus
  availableAt : Instant
  claimUntil : Option Instant
  publishAttempts : Nat
  lastError : Option String
  publishedAt : Option Instant
  createdAt : Instant
  updatedAt : Instant
deriving DecidableEq, Repr

/-! ## Workers and the dispatcher -/

/-- Where an execution of `execute_normalization` stands; the rows are the ones its
session has loaded. -/
inductive Phase where
  | received
  | readJob (job : Option Job)
  /-- The run was terminal and the job was not. -/
  | adopting (job : Job) (run : Run)
  /-- Neither was terminal and the delivery was the current one. -/
  | checked (job : Job) (run : Run)
  | contended (job : Job)
  | locked (job : Job) (run : Run)
  | executing (job : Job) (run : Run)
  /-- Rolled back after a permanent failure. -/
  | failing (job : Job) (code : FailureCode) (message : String)
  /-- Rolled back after any other exception. -/
  | raised (job : Job) (message : String)
  | releasing (job : Job)
  | done
deriving DecidableEq, Repr

/-- The dataset whose advisory lock the phase holds. -/
def Phase.holds : Phase → Option DatasetKey
  | .locked job _ | .executing job _ | .failing job _ _ | .raised job _ | .releasing job =>
    some job.datasetKey
  | .received | .readJob _ | .adopting _ _ | .checked _ _ | .contended _ | .done => none

structure Worker where
  workerId : Uuid
  runId : Uuid
  deliveryId : Uuid
  phase : Phase
deriving DecidableEq, Repr

/-- What happened to a row the dispatcher has claimed. -/
inductive Publication where
  | claimed | accepted
  | refused (error : String)
deriving DecidableEq, Repr

/-- A claimed row in a dispatcher's memory. -/
structure Dispatch where
  outboxId : Uuid
  runId : Uuid
  deliveryId : Uuid
  publication : Publication
deriving DecidableEq, Repr

structure State where
  runs : Table Run.runId
  jobs : Table Job.jobId
  outbox : Table Outbox.outboxId
  workers : Table Worker.workerId
  dispatches : List Dispatch
  /-- Messages the broker was given: each may arrive any number of times. -/
  sent : List (Uuid × Uuid)
  /-- The runs that were marked processing, once for each execution. No code reads it. -/
  executions : List Uuid

/-- The settings. -/
structure Config where
  maxAttempts : Nat
  /-- `NORMALIZATION_LEASE_SECONDS` and the other lengths, as instants. -/
  lease : Nat
  retryBase : Nat
  retryMax : Nat
  outboxBatchSize : Nat
  outboxClaim : Nat
  /-- PostgreSQL's `hashtext`. -/
  hashtext : DatasetKey → Int

def State.init : State where
  runs := Table.empty
  jobs := Table.empty
  outbox := Table.empty
  workers := Table.empty
  dispatches := []
  sent := []
  executions := []

/-! ## Queries and writes -/

/-- `_bounded_error`, of `f"{type(exc).__name__}: {exc}".strip()`. -/
def boundedError (value : String) : String :=
  if value.length ≤ 2000 then value else String.ofList (value.toList.take 1997) ++ "..."

namespace State
variable (s : State)

/-- `SELECT .. WHERE run_id = ..`. -/
def jobOf (runId : Uuid) : Option Job := s.jobs.rows.find? (·.runId == runId)

/-- An active outbox row of the job exists. -/
def hasActive (jobId : Uuid) : Bool := s.outbox.rows.any fun o => o.jobId == jobId && o.status.active

/-- `max(published_at)` over the rows of the job's current delivery. -/
def latestPublishedAt (job : Job) : Option Instant :=
  ((s.outbox.rows.filter fun o => o.jobId == job.jobId && o.deliveryId == job.deliveryId).filterMap
    (·.publishedAt)).max?

/-- Somebody holds the advisory lock of the dataset, or of one with the same hash. -/
def lockHeld (cfg : Config) (datasetKey : DatasetKey) : Bool :=
  s.workers.rows.any fun w => w.phase.holds.any fun k => cfg.hashtext k == cfg.hashtext datasetKey

def setJob (jobId : Uuid) (f : Job → Job) (hf : ∀ r, (f r).jobId = r.jobId := by intro _; rfl) :
    State :=
  { s with jobs := s.jobs.modify jobId f hf }

def setRun (runId : Uuid) (f : Run → Run) (hf : ∀ r, (f r).runId = r.runId := by intro _; rfl) :
    State :=
  { s with runs := s.runs.modify runId f hf }

def setOutbox (outboxId : Uuid) (f : Outbox → Outbox)
    (hf : ∀ r, (f r).outboxId = r.outboxId := by intro _; rfl) : State :=
  { s with outbox := s.outbox.modify outboxId f hf }

/-- The worker goes on. -/
def move (workerId : Uuid) (phase : Phase) : State :=
  { s with workers := s.workers.modify workerId ({ · with phase }) }

variable {s}

theorem mem_setJob {jobId : Uuid} {f : Job → Job} (hf : ∀ r, (f r).jobId = r.jobId) {j : Job} :
    j ∈ (s.setJob jobId f hf).jobs ↔
      (j ∈ s.jobs ∧ j.jobId ≠ jobId) ∨ ∃ i ∈ s.jobs, i.jobId = jobId ∧ j = f i := by
  rw [setJob, Table.mem_modify]

/-- The other jobs stay. -/
theorem setJob_keeps {jobId : Uuid} {f : Job → Job} {hf : ∀ r, (f r).jobId = r.jobId} :
    ∀ j ∈ s.jobs, j.jobId ≠ jobId → j ∈ (s.setJob jobId f hf).jobs :=
  fun _ hj hne => (mem_setJob hf).mpr (Or.inl ⟨hj, hne⟩)

theorem mem_setRun {runId : Uuid} {f : Run → Run} (hf : ∀ r, (f r).runId = r.runId) {r : Run} :
    r ∈ (s.setRun runId f hf).runs ↔
      (r ∈ s.runs ∧ r.runId ≠ runId) ∨ ∃ q ∈ s.runs, q.runId = runId ∧ r = f q := by
  rw [setRun, Table.mem_modify]

theorem mem_move {workerId : Uuid} {phase : Phase} {w : Worker} :
    w ∈ (s.move workerId phase).workers ↔
      (w ∈ s.workers ∧ w.workerId ≠ workerId) ∨
        ∃ v ∈ s.workers, v.workerId = workerId ∧ w = { v with phase } := by
  rw [move, Table.mem_modify]

end State

/-- `session.add(NormalizationOutbox(..))`: one active row for each job. -/
def addOutbox (outboxId jobId runId deliveryId : Uuid) (availableAt now : Instant) (s : State) :
    Except String State := do
  ensure (!s.hasActive jobId) "uq_normalization_outbox_active_job"
  let outbox ← need
    (s.outbox.insert?
      { outboxId, jobId, runId, deliveryId, status := .pending, availableAt, claimUntil := none,
        publishAttempts := 0, lastError := none, publishedAt := none, createdAt := now,
        updatedAt := now })
    "normalization_outbox_pkey"
  return { s with outbox }

/-! ## What a flush writes -/

/-- An attribute is part of the `UPDATE` only when it differs from what was loaded. -/
def dirty {α : Type} [DecidableEq α] (loaded new current : α) : α :=
  if new = loaded then current else new

def Job.flush (loaded new current : Job) : Job where
  jobId := current.jobId
  runId := current.runId
  datasetKey := current.datasetKey
  status := dirty loaded.status new.status current.status
  deliveryId := dirty loaded.deliveryId new.deliveryId current.deliveryId
  attemptCount := dirty loaded.attemptCount new.attemptCount current.attemptCount
  maxAttempts := dirty loaded.maxAttempts new.maxAttempts current.maxAttempts
  availableAt := dirty loaded.availableAt new.availableAt current.availableAt
  leaseExpiresAt := dirty loaded.leaseExpiresAt new.leaseExpiresAt current.leaseExpiresAt
  lastError := dirty loaded.lastError new.lastError current.lastError
  createdAt := dirty loaded.createdAt new.createdAt current.createdAt
  updatedAt := dirty loaded.updatedAt new.updatedAt current.updatedAt
  completedAt := dirty loaded.completedAt new.completedAt current.completedAt

def Run.flush (loaded new current : Run) : Run where
  runId := current.runId
  datasetKey := current.datasetKey
  status := dirty loaded.status new.status current.status
  attemptCount := dirty loaded.attemptCount new.attemptCount current.attemptCount
  startedAt := dirty loaded.startedAt new.startedAt current.startedAt
  completedAt := dirty loaded.completedAt new.completedAt current.completedAt
  nextRetryAt := dirty loaded.nextRetryAt new.nextRetryAt current.nextRetryAt
  failureCode := dirty loaded.failureCode new.failureCode current.failureCode
  errorMessage := dirty loaded.errorMessage new.errorMessage current.errorMessage
  totalRecords := dirty loaded.totalRecords new.totalRecords current.totalRecords
  successRecords := dirty loaded.successRecords new.successRecords current.successRecords
  failedRecords := dirty loaded.failedRecords new.failedRecords current.failedRecords

/-- The flush of a loaded job and run, and its commit. -/
def State.flush (s : State) (job job' : Job) (run run' : Run) : State :=
  (s.setJob job.jobId (Job.flush job job')).setRun run.runId (Run.flush run run')

end FinDB.Normalization
