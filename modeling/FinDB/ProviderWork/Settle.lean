import FinDB.ProviderWork.Completion

/-! # Settlement and the fenced endpoint

`settle` ends the owned round. Two of its refusals are committed: a round whose
prepared bytes or accepted runs are still open is left `draining`. `mutate` is
the endpoint of every fenced call; a lost acknowledgement of `close` or `settle`
is answered from the settled round before the fence is asked. -/
namespace FinDB.ProviderWork
open FinDB.Lib

/-- The caller's part of a settlement. -/
structure Settlement where
  outcome : Outcome
  proof : Proof
  retryAt : Option Stamp
  failureCode : Option String
deriving DecidableEq, Repr

/-- `work.state = outcome`; a retry puts the work back into the queue. -/
def Outcome.workState : Outcome → WorkState
  | .completed => .completed
  | .partly => .partly
  | .failed => .failed
  | .cancelled => .cancelled
  | .retry => .queued

def preparedDraining : Err :=
  .draining "original prepared deliveries remain unaccepted" "PROVIDER_WORK_PREPARED_DRAINING"

def runsDraining : Err :=
  .draining "accepted runs have not all reached terminal state" "PROVIDER_WORK_DRAINING"

/-! ## The checks -/

/-- `failed` may give up pending preparations that its proof lists by name. -/
def Settlement.manual (r : Settlement) (s : Db) (workId : Uuid) : Bool :=
  r.outcome == .failed && truthy r.failureCode &&
  (s.pendingPrepared workId).all (r.proof.manualPendingPrepared.contains ·) &&
  r.proof.manualPendingPrepared.all ((s.preparedKeys workId).contains ·)

/-- No preparation would be dropped. -/
def Settlement.coversPrepared (r : Settlement) (s : Db) (workId : Uuid) : Bool :=
  (s.pendingPrepared workId).isEmpty || r.outcome == .retry || r.manual s workId

/-- A rerun whose normalization was not clean fails, whatever it reports. -/
def Settlement.rerunFailed (r : Settlement) (s : Db) (work : Work) : Bool :=
  work.kind == .rerun && r.outcome == .completed &&
  (work.runIds s).any fun id => !(s.run id).clean

/-- The settlement after the rerun rule. -/
def Settlement.effective (r : Settlement) (s : Db) (work : Work) : Settlement :=
  if r.rerunFailed s work then
    { r with outcome := .failed, failureCode := some "NORMALIZATION_FAILED" }
  else r

/-- The domain validator of `complete_item` ran for this work in this call. -/
def domainValidated (work : Work) (validated : Option Uuid) : Bool :=
  work.kind != .historical || validated == some work.workId

/-- The evidence branch of `settle`. -/
def settleEvidence (cfg : Config) (s : Db) (work : Work) (validated : Option Uuid) (r : Settlement) :
    Except Err Unit :=
  if r.outcome == .partly || (r.outcome == .completed && work.isEodV2) then do
    let evidence ← need (r.proof.eod.filter (·.valid))
      (invalidProof "EOD v2 completion evidence is invalid")
    let _ ← (validateEodCompletion cfg s work evidence r.outcome).mapError
      fun _ => invalidProof "EOD v2 completion evidence is invalid"
    ensure (domainValidated work validated)
      (conflict "historical completion requires its domain evidence validator")
  else if r.outcome == .completed then do
    completedByReceipts s work r.proof
    ensure (domainValidated work validated)
      (conflict "historical completion requires the historical evidence validator")
  else .ok ()

/-- `pending_source_errors` only defer a retry of a planned daily work. -/
def sourceErrorsChecked (work : Work) (r : Settlement) : Bool :=
  match r.proof.pendingSourceErrors with
  | .absent => true
  | .notAList => false
  | .keys entries =>
    r.outcome == .retry && work.kind == .daily && work.planRef.isSome && !entries.isEmpty &&
    entries.all (·.isSome) && decide entries.Nodup &&
    entries.all fun e => e.any (work.expectedKeys.contains ·)

/-- The proof a tail retry starts with. -/
def SourceErrors.carried (errors : SourceErrors) : Proof :=
  match errors with
  | .keys entries =>
    if entries.isEmpty then Proof.empty
    else { Proof.empty with pendingSourceErrors := .keys entries, sourceErrorPending := true }
  | _ => Proof.empty

/-! ## The writes -/

/-- The round is settled with its proof. -/
def Db.settleRound (s : Db) (attemptId : Uuid) (utc : Instant) (r : Settlement) : Db :=
  s.setAttempt attemptId fun a => { a with
    state := .settled, outcome := some r.outcome, settledAt := some utc, proof := some r.proof,
    failureCode := r.failureCode }

/-- The owner slot is free; its generation, host lock and cooldown stay. -/
def Db.release (s : Db) : Db :=
  { s with owner := { s.owner with
      attemptId := none, token := none, heartbeatAt := none, expiresAt := none } }

/-- A final outcome: the round, the work and the owner slot. -/
def Db.finish (s : Db) (attempt : Attempt) (utc : Instant) (r : Settlement) : Db :=
  ((s.settleRound attempt.attemptId utc r).setWork attempt.workId fun w =>
    { w with state := r.outcome.workState, completedAt := some utc }).release

/-- The state before a retry's new attempt is added. -/
def Db.requeue (s : Db) (attempt : Attempt) (utc : Instant) (r : Settlement) : Db :=
  (s.settleRound attempt.attemptId utc r).setWork attempt.workId ({ · with state := .queued })

/-- The `retry` branch: the round settles and a new one joins the tail. -/
def settleRetry (cfg : Config) (utc : Instant) (newId : Uuid) (r : Settlement) (work : Work)
    (attempt : Attempt) (s : Db) : Except Err Db := do
  let retryAt ← need (r.retryAt.filter (·.aware))
    (.work "retry requires timezone-aware not_before" "PROVIDER_WORK_INVALID_RETRY")
  let s' ← addAttempt newId work.workId (attempt.attemptNumber + 1)
    (max retryAt.at_ (utc + second))
    (attempt.drainOnly || !acquisitionOpen cfg utc s { work with state := .queued } true)
    (some r.proof.pendingSourceErrors.carried) (s.requeue attempt utc r)
  return s'.release

/-- `settle`. `validated` is `db.info["historical_completion_validated"]` and
`newId` the id of the attempt a retry would add. -/
def settle (cfg : Config) (utc : Instant) (newId : Uuid) (identity : FenceIdentity)
    (validated : Option Uuid) (r : Settlement) (s : Db) : Except (Raised Err Db) Db := do
  let (work, attempt) ← plain (fence cfg utc identity false s)
  plain (ensure (attempt.state == .closed || attempt.state == .draining)
    (.work "close acquisition before settling provider work" "PROVIDER_WORK_NOT_CLOSED"))
  let draining := s.setAttempt attempt.attemptId ({ · with state := .draining })
  ensureOrKeep (r.coversPrepared s work.workId) preparedDraining draining
  ensureOrKeep (s.runsTerminal work.workId) runsDraining draining
  let r := r.effective s work
  plain (settleEvidence cfg s work validated r)
  plain (ensure (sourceErrorsChecked work r)
    (invalidProof "pending Source outcomes differ from frozen daily scope"))
  if r.outcome == .retry then plain (settleRetry cfg utc newId r work attempt s)
  else return s.finish attempt utc r

/-! ## The fenced endpoint -/

/-- The calls of `mutate` that write provider work. -/
inductive Action where
  | heartbeat (acquisitionNotBefore : Option Stamp)
  | manifest (manifest : Option Manifest)
  | prepare (body : String) (stage : Stage) (jobKey : Option String)
  | close
  | settle (r : Settlement) (newId : Uuid)

/-- The service behind an action, without a domain validation. -/
def Action.run (cfg : Config) (utc : Instant) (identity : FenceIdentity) (s : Db) :
    Action → Except (Raised Err Db) Db
  | .heartbeat t => plain (ProviderWork.heartbeat cfg utc identity t s)
  | .manifest m => plain (freezeManifest cfg utc identity m s)
  | .prepare body stage jobKey => plain (registerPrepared cfg utc identity body stage jobKey s)
  | .close => plain (ProviderWork.close cfg utc identity s)
  | .settle r newId => ProviderWork.settle cfg utc newId identity none r s

/-- The settled round that issued this identity, for the two calls that replay. -/
def Action.previous (datasets : List DatasetKey) (identity : FenceIdentity) (s : Db)
    (action : Action) : Option Attempt :=
  let settledRound := s.attempts.rows.find? fun a =>
    a.workId == identity.workId && a.generation == some identity.generation &&
    a.token == some identity.token && a.state == .settled &&
    (s.works.find? a.workId).any fun w => datasets.contains w.datasetKey
  match action with
  | .close | .settle _ _ => settledRound
  | .heartbeat _ | .manifest _ | .prepare _ _ _ => none

/-- A replayed settlement repeats the recorded one; a completed rerun may have
been recorded as a normalization failure. -/
def Action.replays (work : Work) (previous : Attempt) : Action → Bool
  | .settle r _ =>
    let failedRerun := work.kind == .rerun && r.outcome == .completed && r.failureCode.isNone &&
      previous.outcome == some .failed && previous.failureCode == some "NORMALIZATION_FAILED"
    (previous.outcome == some r.outcome || failedRerun) && previous.proof == some r.proof &&
    (previous.failureCode == r.failureCode || failedRerun)
  | .heartbeat _ | .manifest _ | .prepare _ _ _ | .close => true

/-- `mutate`: the state it leaves and the work state it answers with. -/
def mutate (cfg : Config) (utc : Instant) (datasets : List DatasetKey) (identity : FenceIdentity)
    (action : Action) (s : Db) : Except (Raised Err Db) (Db × WorkState) := do
  plain (sourceScope cfg datasets)
  match action.previous datasets identity s with
  | some previous =>
    let work ← plain (need (s.works.find? identity.workId) (.integrity "provider_work"))
    plain (ensure (action.replays work previous)
      (.work "settlement replay differs from durable round proof" "PROVIDER_WORK_REPLAY_MISMATCH"))
    return (s, work.state)
  | none =>
    let (work, _) ← plain (fence cfg utc identity false s)
    plain (ensure (datasets.contains work.datasetKey) (.http 403 "Source dataset scope denied"))
    let s' ← action.run cfg utc identity s
    let work' ← plain (need (s'.works.find? identity.workId) (.integrity "provider_work"))
    return (s', work'.state)

/-- What `mutate` leaves in the database. -/
def mutateDb (cfg : Config) (utc : Instant) (datasets : List DatasetKey) (identity : FenceIdentity)
    (action : Action) (s : Db) : Except (Raised Err Db) Db :=
  (mutate cfg utc datasets identity action s).map (·.1)

end FinDB.ProviderWork
