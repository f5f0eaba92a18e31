import Mathlib.Data.List.Sort
import FinDB.Lib.Machine
import FinDB.Normalization.Rows

/-! # The steps of the normalization queue

Ingestion, the dispatcher, the workers and both reconcilers, one transaction or one
unlocked read at a time. A step that is not enabled leaves the state as it is, and a
refused insert rolls its transaction back. Rows that another transaction has locked
are skipped where the source says `skip_locked`: `held` names them. -/
namespace FinDB.Normalization
open FinDB.Lib

variable (cfg : Config)

/-! ## Ingestion -/

/-- A run as ingestion creates it. -/
def newRun (runId : Uuid) (datasetKey : DatasetKey) : Run :=
  ⟨runId, datasetKey, .queued, 0, none, none, none, none, none, 0, 0, 0⟩

def createRun (runId : Uuid) (datasetKey : DatasetKey) (s : State) : Except String State := do
  let runs ← need (s.runs.insert? (newRun runId datasetKey)) "ingestion_run_pkey"
  return { s with runs }

/-- The ids `uuid7()` draws for a delivery. -/
structure DeliveryIds where
  deliveryId : Uuid
  outboxId : Uuid
deriving DecidableEq, Repr

/-- `create_normalization_job`: the job and its outbox row in one transaction. -/
def createNormalizationJob (now : Instant) (jobId : Uuid) (ids : DeliveryIds) (runId : Uuid)
    (availableAt : Option Instant) (s : State) : Except String State := do
  let run ← need (s.runs.find? runId) "normalization_job_run_id_fkey"
  ensure (s.jobOf runId).isNone "uq_normalization_job_run"
  let jobs ← need
    (s.jobs.insert?
      { jobId, runId, datasetKey := run.datasetKey, status := .queued, deliveryId := ids.deliveryId,
        attemptCount := 0, maxAttempts := cfg.maxAttempts, availableAt := availableAt.getD now,
        leaseExpiresAt := none, lastError := none, createdAt := now, updatedAt := now,
        completedAt := none })
    "normalization_job_pkey"
  addOutbox ids.outboxId jobId runId ids.deliveryId (availableAt.getD now) now { s with jobs }

/-! ## The reconcilers -/

/-- A new delivery of a job: its id in the job and the outbox row that carries it. -/
def redeliver (now availableAt : Instant) (ids : DeliveryIds) (f : Job → Job)
    (hf : ∀ r, (f r).jobId = r.jobId) (job : Job) (s : State) : Except String State :=
  addOutbox ids.outboxId job.jobId job.runId ids.deliveryId availableAt now
    (s.setJob job.jobId (fun j => { f j with deliveryId := ids.deliveryId, updatedAt := now })
      fun j => hf j)

/-- The lease of a processing job has run out. -/
def Job.leaseExpired (job : Job) (now : Instant) : Bool := job.leaseExpiresAt.all (decide <| · < now)

/-- The WHERE clause of `reconcile_nonterminal_jobs`. -/
def Job.nonterminalSelected (now : Instant) (job : Job) : Bool :=
  !job.status.terminal && (job.status != .processing || job.leaseExpired now)

/-- An expired processing job waits again. -/
def Job.unleased (job : Job) : Job :=
  if job.status == .processing then { job with status := .queued, leaseExpiresAt := none } else job

@[simp] theorem Job.unleased_jobId (job : Job) : job.unleased.jobId = job.jobId := by
  unfold Job.unleased
  split <;> rfl

/-- Its loop: a job with an active delivery only loses its expired lease. -/
def replayJob (now : Instant) (s : State) (row : Job × DeliveryIds) : Except String State :=
  if s.hasActive row.1.jobId then
    .ok (s.setJob row.1.jobId (fun j => { j.unleased with updatedAt := now })
      Job.unleased_jobId)
  else redeliver now (max row.1.availableAt now) row.2 Job.unleased Job.unleased_jobId row.1 s

/-- The jobs a reconciler locked, each with the ids drawn for it. -/
def selected (ids : Nat → DeliveryIds) (p : Job → Bool) (s : State) : List (Job × DeliveryIds) :=
  (s.jobs.rows.filter p).zipIdx.map fun (job, i) => (job, ids i)

/-- `reconcile_nonterminal_jobs`. -/
def reconcileNonterminalJobs (now : Instant) (held : Uuid → Bool) (ids : Nat → DeliveryIds)
    (s : State) : Except String State :=
  (selected ids (fun j => j.nonterminalSelected now && !held j.jobId) s).foldlM (replayJob now) s

/-- The WHERE clause of `reconcile_stale_jobs`. -/
def staleSelected (now : Instant) (s : State) (job : Job) : Bool :=
  !job.status.terminal && !s.hasActive job.jobId &&
  ((job.status == .processing && job.leaseExpired now) ||
    ((job.status == .queued || job.status == .retrying) && decide (job.availableAt ≤ now) &&
      (s.latestPublishedAt job).all fun t => decide (t + cfg.lease < now)))

/-- Its loop. -/
def repairJob (now : Instant) (s : State) (row : Job × DeliveryIds) : Except String State :=
  redeliver now now row.2
    (fun j => { j with status := .queued, availableAt := now, leaseExpiresAt := none })
    (by intro _; rfl) row.1 s

/-- `reconcile_stale_jobs`. -/
def reconcileStaleJobs (now : Instant) (held : Uuid → Bool) (ids : Nat → DeliveryIds) (s : State) :
    Except String State :=
  (selected ids (fun j => staleSelected cfg now s j && !held j.jobId) s).foldlM (repairJob now) s

/-! ## The dispatcher -/

/-- Ready to publish, or claimed by a dispatcher that has not reported back. -/
def Outbox.claimable (now : Instant) (o : Outbox) : Bool :=
  decide (o.availableAt ≤ now) &&
  (o.status == .pending || (o.status == .publishing && o.claimUntil.any (decide <| · < now)))

/-- The batch of `claim_outbox_batch`, oldest first. -/
def outboxBatch (now : Instant) (held : Uuid → Bool) (s : State) : List Outbox :=
  ((s.outbox.rows.filter fun o => o.claimable now && !held o.outboxId).insertionSort fun o p =>
    o.availableAt < p.availableAt ∨ (o.availableAt = p.availableAt ∧ o.createdAt ≤ p.createdAt)).take
      cfg.outboxBatchSize

/-- `claim_outbox_batch`: the rows, and what the dispatcher now remembers. -/
def claimOutboxBatch (now : Instant) (held : Uuid → Bool) (s : State) : State :=
  let batch := outboxBatch cfg now held s
  { s with
    outbox := s.outbox.update (fun o => batch.any (·.outboxId == o.outboxId)) fun o =>
      { o with status := .publishing, claimUntil := some (now + cfg.outboxClaim),
               publishAttempts := o.publishAttempts + 1, updatedAt := now }
    dispatches := s.dispatches ++ batch.map fun o => ⟨o.outboxId, o.runId, o.deliveryId, .claimed⟩ }

/-- `publish_outbox_event`. It may raise although the broker took the message. -/
def publish (d : Dispatch) (accepted : Bool) (error : Option String) (s : State) : State :=
  if s.dispatches.contains d && d.publication == .claimed then
    let after := match error with
      | none => Publication.accepted
      | some e => .refused e
    { s with
      dispatches := { d with publication := after } :: s.dispatches.erase d
      sent := if accepted || error.isNone then (d.runId, d.deliveryId) :: s.sent else s.sent }
  else s

/-- `mark_outbox_published`. -/
def markOutboxPublished (now : Instant) (d : Dispatch) (s : State) : State :=
  if s.dispatches.contains d && d.publication == .accepted then
    { s.setOutbox d.outboxId ({ · with
        status := .published, publishedAt := some now, claimUntil := none, lastError := none,
        updatedAt := now }) with
      dispatches := s.dispatches.erase d }
  else s

/-- `delay = min(2 ** min(publish_attempts, 6), 60)`. -/
def publishDelay (publishAttempts : Nat) : Nat := min (2 ^ min publishAttempts 6) 60 * second

/-- `mark_outbox_publish_failure`: refused while another row of the job is active. -/
def markOutboxPublishFailure (now : Instant) (d : Dispatch) (s : State) : Except String State := do
  let error ← need (match d.publication with | .refused e => some e | _ => none) "dispatch"
  ensure (s.dispatches.contains d) "dispatch"
  match s.outbox.find? d.outboxId with
  | none => return { s with dispatches := s.dispatches.erase d }
  | some row =>
    ensure (!s.outbox.rows.any fun o =>
        o.jobId == row.jobId && o.outboxId != row.outboxId && o.status.active)
      "uq_normalization_outbox_active_job"
    return { s.setOutbox d.outboxId (fun o => { o with
        status := .pending, availableAt := now + publishDelay o.publishAttempts, claimUntil := none,
        lastError := some (boundedError error), updatedAt := now }) with
      dispatches := s.dispatches.erase d }

/-! ## A worker -/

/-- A message arrives: a new execution. -/
def receive (workerId runId deliveryId : Uuid) (s : State) : Except String State := do
  ensure (s.sent.contains (runId, deliveryId)) "message"
  let workers ← need (s.workers.insert? ⟨workerId, runId, deliveryId, .received⟩) "worker"
  return { s with workers }

/-- What the checks after the two reads decide. -/
def checkDelivery (deliveryId : Uuid) : Option Job → Option Run → Phase
  | some job, some run =>
    if run.status.terminal || job.status.terminal then
      if job.status.terminal then .done else .adopting job run
    else if job.deliveryId != deliveryId then .done
    else .checked job run
  | _, _ => .done

/-- The terminal branch: the job takes over the run's status. -/
def adopt (now : Instant) (job : Job) (run : Run) (s : State) : State :=
  s.setJob job.jobId (Job.flush job { job with
    status := run.status, completedAt := some (run.completedAt.getD now), updatedAt := now })

/-- `_defer_for_lock_contention`, on the row it locks and reads again. -/
def deferForLockContention (now delay : Instant) (ids : DeliveryIds) (jobId deliveryId : Uuid)
    (s : State) : Except String State :=
  match s.jobs.find? jobId with
  | none => .ok s
  | some job =>
    if job.status.terminal || job.status == .processing || job.deliveryId != deliveryId then .ok s
    else if s.hasActive jobId then .ok s
    else redeliver now (now + delay) ids
      (fun j => { j with status := .queued, availableAt := now + delay, leaseExpiresAt := none })
      (by intro _; rfl) job s

/-- `if job.status != "processing": job.attempt_count += 1`. -/
def Job.counted (job : Job) : Nat :=
  if job.status == .processing then job.attemptCount else job.attemptCount + 1

/-- The loaded job as the worker marks it. -/
def Job.marked (job : Job) (now lease : Instant) : Job :=
  { job with attemptCount := job.counted, status := .processing, leaseExpiresAt := some (now + lease),
             updatedAt := now }

def Run.marked (run : Run) (now : Instant) (attemptCount : Nat) : Run :=
  { run with status := .processing, attemptCount, nextRetryAt := none,
             startedAt := run.startedAt <|> some now }

/-- The rows of other tables an execution needs. -/
structure Inputs where
  rawPayload : Bool
  /-- `dataset.is_active`, when the dataset exists. -/
  dataset : Option Bool
  normalizer : Bool
  /-- The payload names a schema and the dataset's contract declaration is invalid. -/
  contractInvalid : Bool
deriving DecidableEq, Repr

/-- The permanent errors, in the order they are raised. -/
def Inputs.failure (i : Inputs) : Option FailureCode :=
  if !i.rawPayload then some .rawPayloadMissing
  else match i.dataset with
    | none => some .datasetNotFound
    | some false => some .datasetInactive
    | some true =>
      if !i.normalizer then some .normalizerNotConfigured
      else if i.contractInvalid then some .datasetContractInvalid
      else none

/-- `NormalizeResult`, with the summary `process` stores in the run. -/
structure NormalizeResult where
  totalRecords : Nat
  successRecords : Nat
  failedRecords : Nat
  errorMessage : Option String
  errorSummary : Option String
deriving DecidableEq, Repr

/-- How `normalizer.process` ends. -/
inductive Processed where
  | result (r : NormalizeResult)
  | partitionUnavailable
  | raised (message : String)
deriving DecidableEq, Repr

def NormalizeResult.status (r : NormalizeResult) : RunStatus :=
  if r.failedRecords = 0 then .completed else .completedWithErrors

def Job.finished (job : Job) (now : Instant) (r : NormalizeResult) : Job :=
  { job with status := r.status, leaseExpiresAt := none, lastError := r.errorMessage,
             completedAt := some now, updatedAt := now }

def Run.finished (run : Run) (now : Instant) (r : NormalizeResult) (attemptCount : Nat) : Run :=
  { run with
    status := r.status, totalRecords := r.totalRecords, successRecords := r.successRecords,
    failedRecords := r.failedRecords, errorMessage := r.errorSummary, completedAt := some now,
    attemptCount, failureCode := none, nextRetryAt := none }

/-- `str(PermanentNormalizationError(code))` as the message keeps it. -/
def permanentMessage (code : FailureCode) : String :=
  boundedError ("PermanentNormalizationError: " ++ code.name)

/-- The body of the `try`: the result is committed, or the exception rolled back. -/
def execute (now : Instant) (inputs : Inputs) (processed : Processed) (worker : Worker) (job : Job)
    (run : Run) (s : State) : State :=
  match inputs.failure with
  | some code => s.move worker.workerId (.failing job code (permanentMessage code))
  | none =>
    match processed with
    | .partitionUnavailable =>
      s.move worker.workerId
        (.failing job .eodPartitionUnavailable (permanentMessage .eodPartitionUnavailable))
    | .raised message => s.move worker.workerId (.raised job (boundedError message))
    | .result r =>
      (s.flush job (job.finished now r) run (run.finished now r job.attemptCount)).move
        worker.workerId (.releasing job)

/-- `failed`, on the rows as they are under their locks. -/
def Job.failed (now : Instant) (message : String) (job : Job) : Job :=
  { job with status := .failed, lastError := some message, leaseExpiresAt := none,
             completedAt := some now, updatedAt := now }

def Run.failed (now : Instant) (code : FailureCode) (message : String) (run : Run) : Run :=
  { run with status := .failed, failureCode := some code, errorMessage := some message,
             completedAt := some now, nextRetryAt := none }

/-- Both rows fail. -/
def State.fail (s : State) (now : Instant) (jobId runId : Uuid) (code : FailureCode)
    (message : String) : State :=
  (s.setJob jobId (Job.failed now message)).setRun runId (Run.failed now code message)

/-- `_mark_permanent_failure`. -/
def markPermanentFailure (now : Instant) (jobId runId : Uuid) (code : FailureCode)
    (message : String) (s : State) : State :=
  match s.jobs.find? jobId, s.runs.find? runId with
  | some _, some _ => s.fail now jobId runId code message
  | _, _ => s

/-- `base` of the backoff, for the attempts already used. -/
def retryBackoff (attemptCount : Nat) : Nat :=
  min (cfg.retryBase * 2 ^ (attemptCount - 1)) cfg.retryMax

/-- `_schedule_retry`. -/
def scheduleRetry (now jitter : Instant) (ids : DeliveryIds) (jobId runId : Uuid)
    (message : String) (s : State) : Except String State :=
  match s.jobs.find? jobId, s.runs.find? runId with
  | some job, some run =>
    if job.maxAttempts ≤ job.attemptCount then
      .ok (s.fail now jobId runId .retryExhausted message)
    else
      let availableAt := now + (retryBackoff cfg job.attemptCount + jitter)
      redeliver now availableAt ids
        (fun j => { j with status := .retrying, availableAt, leaseExpiresAt := none,
                           lastError := some message })
        (by intro _; rfl) job
        (s.setRun run.runId ({ · with
          status := .retrying, attemptCount := job.attemptCount, nextRetryAt := some availableAt,
          errorMessage := some message }))
  | _, _ => .ok s

/-! ## The machine -/

inductive Op where
  | createRun (runId : Uuid) (datasetKey : DatasetKey)
  | createNormalizationJob (now : Instant) (jobId : Uuid) (ids : DeliveryIds) (runId : Uuid)
      (availableAt : Option Instant)
  | reconcileNonterminalJobs (now : Instant) (held : Uuid → Bool) (ids : Nat → DeliveryIds)
  | reconcileStaleJobs (now : Instant) (held : Uuid → Bool) (ids : Nat → DeliveryIds)
  | claimOutboxBatch (now : Instant) (held : Uuid → Bool)
  | publish (d : Dispatch) (accepted : Bool) (error : Option String)
  | markOutboxPublished (now : Instant) (d : Dispatch)
  | markOutboxPublishFailure (now : Instant) (d : Dispatch)
  | dispatcherCrash (d : Dispatch)
  | receive (workerId runId deliveryId : Uuid)
  | readJob (workerId : Uuid)
  | readRun (workerId : Uuid)
  | adopt (workerId : Uuid) (now : Instant)
  | tryLock (workerId : Uuid)
  | deferForLockContention (workerId : Uuid) (now delay : Instant) (ids : DeliveryIds)
  | mark (workerId : Uuid) (now : Instant)
  | abort (workerId : Uuid) (message : String)
  | execute (workerId : Uuid) (now : Instant) (inputs : Inputs) (processed : Processed)
  | markPermanentFailure (workerId : Uuid) (now : Instant)
  | scheduleRetry (workerId : Uuid) (now jitter : Instant) (ids : DeliveryIds)
  | release (workerId : Uuid)
  | crash (workerId : Uuid)

/-- One step of the worker: what it does in its phase, or nothing. -/
def workerStep (w : Worker) (op : Op) (s : State) : State :=
  match op, w.phase with
  | .readJob _, .received => s.move w.workerId (.readJob (s.jobOf w.runId))
  | .readRun _, .readJob job =>
    s.move w.workerId (checkDelivery w.deliveryId job (s.runs.find? w.runId))
  | .adopt _ now, .adopting job run => (adopt now job run s).move w.workerId .done
  | .tryLock _, .checked job run =>
    s.move w.workerId (if s.lockHeld cfg job.datasetKey then .contended job else .locked job run)
  | .deferForLockContention _ now delay ids, .contended job =>
    (settled s (deferForLockContention now delay ids job.jobId w.deliveryId s)).move w.workerId .done
  | .mark _ now, .locked job run =>
    { ((s.flush job (job.marked now cfg.lease) run (run.marked now job.counted)).move w.workerId
        (.executing (job.marked now cfg.lease) (run.marked now job.counted))) with
      executions := w.runId :: s.executions }
  -- anything the marking raises is handled like an exception of the execution
  | .abort _ message, .locked job _ => s.move w.workerId (.raised job (boundedError message))
  | .execute _ now inputs processed, .executing job run => execute now inputs processed w job run s
  | .markPermanentFailure _ now, .failing job code message =>
    (markPermanentFailure now job.jobId w.runId code message s).move w.workerId (.releasing job)
  | .scheduleRetry _ now jitter ids, .raised job message =>
    (settled s (scheduleRetry cfg now jitter ids job.jobId w.runId message s)).move w.workerId
      (.releasing job)
  | .release _, .releasing _ => s.move w.workerId .done
  | .crash _, _ => s.move w.workerId .done
  | _, _ => s

/-- The worker an operation belongs to. -/
def Op.worker : Op → Option Uuid
  | .readJob w | .readRun w | .adopt w _ | .tryLock w | .deferForLockContention w _ _ _ | .mark w _
  | .abort w _ | .execute w _ _ _ | .markPermanentFailure w _ | .scheduleRetry w _ _ _ | .release w | .crash w =>
    some w
  | _ => none

/-- The state an operation leaves. -/
def apply (op : Op) (s : State) : State :=
  match op with
  | .createRun runId datasetKey => settled s (createRun runId datasetKey s)
  | .createNormalizationJob now jobId ids runId availableAt =>
    settled s (createNormalizationJob cfg now jobId ids runId availableAt s)
  | .reconcileNonterminalJobs now held ids => settled s (reconcileNonterminalJobs now held ids s)
  | .reconcileStaleJobs now held ids => settled s (reconcileStaleJobs cfg now held ids s)
  | .claimOutboxBatch now held => claimOutboxBatch cfg now held s
  | .publish d accepted error => publish d accepted error s
  | .markOutboxPublished now d => markOutboxPublished now d s
  | .markOutboxPublishFailure now d => settled s (markOutboxPublishFailure now d s)
  | .dispatcherCrash d => { s with dispatches := s.dispatches.erase d }
  | .receive workerId runId deliveryId => settled s (receive workerId runId deliveryId s)
  | .readJob w | .readRun w | .adopt w _ | .tryLock w | .deferForLockContention w _ _ _ | .mark w _
  | .abort w _ | .execute w _ _ _ | .markPermanentFailure w _ | .scheduleRetry w _ _ _ | .release w | .crash w =>
    match s.workers.find? w with
    | none => s
    | some worker => workerStep cfg worker op s

/-- Any finite sequence of operations. -/
def Steps : State → State → Prop := StepsIf (apply cfg) fun _ _ => True

def Reachable (s : State) : Prop := Steps cfg State.init s

end FinDB.Normalization
