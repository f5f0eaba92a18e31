import FinDB.ProviderWork.Historical

/-! # complete_item

The domain end of a historical item: it validates the result against the item,
settles the owned round and then moves the item, its request and its siblings.
When the request was cancelled or expired first, the same call only drains. -/
namespace FinDB.ProviderWork
open FinDB.Lib

inductive ItemOutcome where
  | completed | partly | failed
deriving DecidableEq, Repr

def ItemOutcome.outcome : ItemOutcome → Outcome
  | .completed => .completed
  | .partly => .partly
  | .failed => .failed

def ItemOutcome.status : ItemOutcome → ItemStatus
  | .completed => .completed
  | .partly => .partly
  | .failed => .failed

/-- The arguments of `complete_item`; `identity` is `db.info["provider_work"]`. -/
structure CompleteItem where
  itemId : Uuid
  outcome : ItemOutcome
  leaseToken : Uuid
  runId : Option Uuid
  failureCode : Option String
  failureMessage : Option String
  resultEvidence : Option ResultEvidence
  identity : Option FenceIdentity
deriving DecidableEq, Repr

def CompleteItem.report (r : CompleteItem) : CompletionReport :=
  ⟨r.outcome.outcome, r.runId, r.failureCode, r.failureMessage, r.resultEvidence⟩

/-- The operator rejected the prepared bytes for good. -/
def CompleteItem.manualReview (r : CompleteItem) : Bool :=
  r.failureCode == some "PREPARED_DELIVERY_MANUAL_REVIEW"

/-! ## The evidence of a completion -/

/-- `_valid_completed_run`. -/
def validCompletedRun (cfg : Config) (run : Run) (request : Request) (item : Item) : Bool :=
  run.source == cfg.provider && run.datasetKey == request.datasetKey &&
  run.batchDataDate == some item.tradeDate && run.clean && run.schemaId.isSome &&
  run.schemaVersion.isSome && run.deliveryMode.isSome

/-- The run wrote exactly the rows of the report, from the raw it names. -/
def taifexRun (cfg : Config) (s : Db) (request : Request) (item : Item) (e : TaifexEvidence)
    (runId : Option Uuid) : Except Err Unit := do
  let rows := e.rows.filter fun row => !row.noTrade
  let id ← need (runId.filter fun id => validCompletedRun cfg (s.run id) request item)
    (.backfillValidation "Source run does not match completed backfill item")
  let run := s.run id
  ensure (run.schemaId == some "futures_eod" && run.schemaVersion == some 1 &&
      run.deliveryMode == some "backfill" && run.coverageStartDate == some item.tradeDate &&
      run.coverageEndDate == some item.tradeDate && run.totalRecords == rows.length &&
      run.workItemId == some (.historical item.itemId))
    (.backfillValidation "Source run is outside the historical item")
  ensure ((run.rawPayloadId.bind s.registry.rawPayloads).any fun raw =>
      raw.sourceRawRef == some e.manifestRef && raw.sourceRawSha256 == some e.manifestSha256 &&
      raw.fetchedAt == e.fetchedAt && raw.data == rows)
    (.backfillValidation "Source raw manifest differs from completion proof")
  ensure (sameSet ((s.evidence.filter (·.1 == id)).map (·.2)) (rows.map (·.member)))
    (.backfillValidation "TAIFEX canonical member proof is incomplete")

/-- `_validate_taifex_completion`. -/
def validateTaifexCompletion (cfg : Config) (utc : Instant) (s : Db) (request : Request)
    (item : Item) (runId : Option Uuid) (evidence : Option ResultEvidence) : Except Err Unit := do
  let e ← need (evidence.bind fun | .taifex e => some e | .eod _ => none)
    (.backfillValidation "TAIFEX completion evidence is invalid")
  ensure (e.itemId == item.itemId && e.requestId == item.requestId &&
      e.tradeDate == item.tradeDate && request.datasetKey == "tw_futures_eod" &&
      decide (e.fetchedAt ≤ utc + 5 * minute))
    (.backfillValidation "TAIFEX evidence scope or clock differs")
  let closed ← sessionClosed cfg item e.fetchedAt
  ensure closed (.backfillValidation "TAIFEX evidence scope or clock differs")
  if e.rows.all (·.noTrade) then
    ensure runId.isNone
      (.backfillValidation "no-data-only completion must not include a run")
  else taifexRun cfg s request item e runId

/-- The EOD evidence names this item and exactly the request's cohort. -/
def validateEodItem (request : Request) (item : Item) (evidence : Option ResultEvidence) :
    Except Err EODCompletionEvidence := do
  let e ← need ((evidence.bind fun | .eod e => some e | .taifex _ => none).filter (·.valid))
    (.backfillValidation "EOD completion evidence is invalid")
  ensure (e.itemId == some item.itemId && e.requestId == some item.requestId &&
      e.tradeDate == item.tradeDate && request.universeSnapshot.any fun snapshot =>
        sameSet e.keys (snapshot.members.map (·.memberKey)))
    (.backfillValidation "EOD evidence differs from the frozen request")
  return e

/-- What the validators keep of the evidence, by provider and outcome. -/
def validateResult (cfg : Config) (utc : Instant) (s : Db) (request : Request) (item : Item)
    (r : CompleteItem) : Except Err (Option EODCompletionEvidence) :=
  match r.outcome, cfg.provider with
  | .completed, .factset | .partly, .factset => do
    return some (← validateEodItem request item r.resultEvidence)
  | .completed, .taifex => do
    validateTaifexCompletion cfg utc s request item r.runId r.resultEvidence
    return none
  | .completed, _ => do
    let id ← need r.runId (.backfillValidation "completed item requires a Source run")
    ensure (validCompletedRun cfg (s.run id) request item)
      (.backfillValidation "Source run does not match completed backfill item")
    return none
  | _, _ => .ok none

/-- `item.result_evidence`, as the validators leave it. -/
def keptEvidence (cfg : Config) (r : CompleteItem) (eod : Option EODCompletionEvidence)
    (item : Item) : Item :=
  match eod with
  | some e => { item with resultEvidence := some (.eod e) }
  | none =>
    if r.outcome == .completed && cfg.provider == .taifex then
      { item with resultEvidence := r.resultEvidence }
    else item

/-! ## The settlement -/

/-- `completion_report` and the item status, which only FactSet replays. -/
def withReport (cfg : Config) (r : CompleteItem) (status : ItemStatus) (proof : Proof) : Proof :=
  if cfg.provider == .factset then
    { proof with historicalCompletion := some r.report, historicalItemStatus := some status }
  else proof

/-- `manual_pending_prepared` and why. -/
def withManual (s : Db) (workId : Uuid) (r : CompleteItem) (proof : Proof) : Proof :=
  { proof with
    manualPendingPrepared := s.preparedKeys workId
    rest := proof.rest ++ [("manual_reason", "permanent_prepared_delivery_rejection"),
      ("source_rejection", r.failureMessage.getD "")] }

/-- The settlement that drains a cancelled item. -/
def CompleteItem.drainSettlement (cfg : Config) (s : Db) (workId : Uuid) (item : Item)
    (r : CompleteItem) : Settlement where
  outcome := if r.outcome == .failed && r.manualReview then .failed else .cancelled
  proof :=
    let proof := withReport cfg r item.status { Proof.empty with
      rest := [("historical_item_id", toString r.itemId), ("cancelled_prepared_drain", "true")] }
    if r.manualReview then withManual s workId r proof else proof
  retryAt := none
  failureCode := if r.manualReview then r.failureCode else none

/-- The settlement of a leased item. -/
def CompleteItem.settlement (cfg : Config) (s : Db) (workId : Uuid)
    (eod : Option EODCompletionEvidence) (r : CompleteItem) : Settlement where
  outcome := r.outcome.outcome
  proof :=
    let noData := match cfg.provider, r.resultEvidence with
      | .taifex, some (.taifex e) => (e.rows.filter (·.noTrade)).map (·.member)
      | _, _ => []
    let proof := withReport cfg r r.outcome.status { Proof.empty with
      noData, eod, rest := [("historical_item_id", toString r.itemId)] }
    if r.outcome == .failed && r.manualReview then withManual s workId r proof else proof
  retryAt := none
  failureCode := r.failureCode

/-! ## The item and its request -/

/-- The item's terminal row. -/
def CompleteItem.ended (r : CompleteItem) (utc : Instant) (item : Item) : Item :=
  { item with
    status := r.outcome.status, completedAt := some utc, runId := r.runId, leaseToken := none,
    leaseExpiresAt := none,
    failureCode := if r.outcome == .failed then r.failureCode else none,
    failureMessage := if r.outcome == .failed then r.failureMessage else none }

/-- A sibling that was still to be acquired ends with the failed item. -/
def failSibling (now : Instant) (itemId : Uuid) (s : Db) (sibling : Item) : Db :=
  if sibling.status.live && sibling.itemId != itemId then expireSibling now s sibling else s

/-- Every item of the request has its data or needs none. -/
def ItemStatus.delivered : ItemStatus → Bool
  | .completed | .partly | .skippedCalendar => true
  | .pending | .running | .failed | .cancelled => false

/-- The request and the siblings after the item ended. -/
def CompleteItem.endRequest (r : CompleteItem) (utc : Instant) (item : Item) (s : Db) : Db :=
  if r.outcome == .failed then
    let s := s.setRequest item.requestId ({ · with
      status := .failed, completedAt := some utc
      failureCode := if truthy r.failureCode then r.failureCode else some "PROVIDER_FAILED"
      failureMessage := r.failureMessage })
    (s.itemsOf item.requestId).foldl (failSibling utc item.itemId) s
  else if (s.itemsOf item.requestId).all (·.status.delivered) then
    let ended := if (s.itemsOf item.requestId).any (·.status == .partly) then RequestStatus.partly
      else .completed
    s.setRequest item.requestId ({ · with status := ended, completedAt := some utc })
  else s

/-! ## The call -/

/-- The settled round this FactSet call would repeat. -/
def CompleteItem.previous (cfg : Config) (r : CompleteItem) (s : Db) : Option Attempt :=
  if cfg.provider == .factset then
    r.identity.bind fun identity => s.attempts.rows.find? fun a =>
      a.workId == identity.workId && a.generation == some identity.generation &&
      a.token == some r.leaseToken && a.state == .settled &&
      (s.works.find? a.workId).any fun w => w.stableKey == .historical r.itemId
  else none

/-- The recorded item status of a settled round: its proof's, or its outcome. -/
def Attempt.itemStatus (a : Attempt) : Option ItemStatus :=
  match a.proof.bind (·.historicalItemStatus) with
  | some status => some status
  | none => match a.outcome with
    | some .completed => some .completed
    | some .partly => some .partly
    | some .failed => some .failed
    | some .cancelled => some .cancelled
    | _ => none

/-- A replay repeats the recorded report. -/
def CompleteItem.replays (r : CompleteItem) (previous : Attempt) (item : Item) : Bool :=
  r.identity.any (·.token == r.leaseToken) &&
  previous.proof.bind (·.historicalCompletion) == some r.report &&
  previous.itemStatus == some item.status

/-- The lease still stands. -/
def Item.leased (item : Item) (request : Request) (token : Uuid) (now : Instant) : Bool :=
  request.status != .cancelled && item.status == .running && item.leaseToken == some token &&
  item.leaseExpiresAt.any fun t => decide (now < t)

/-- The request ended before its item could: the call only drains. -/
def drainsOnly (request : Request) (item : Item) : Bool :=
  request.status == .cancelled ||
  (request.status == .failed && (item.status == .cancelled || item.status == .failed))

/-- The drain branch: close, then settle without a domain validation. -/
def drainItem (cfg : Config) (utc : Instant) (identity : FenceIdentity) (work : Work) (item : Item)
    (r : CompleteItem) (s : Db) : Except (Raised Err Db) Db := do
  let s ← plain (close cfg utc identity s)
  settle cfg utc 0 identity none (r.drainSettlement cfg s work.workId item) s

/-- The leased branch: validate, close, settle, then end item and request. -/
def finishItem (cfg : Config) (utc : Instant) (identity : FenceIdentity) (work : Work) (item : Item)
    (request : Request) (r : CompleteItem) (s : Db) : Except (Raised Err Db) Db := do
  plain (ensure (item.leased request r.leaseToken utc)
    (.backfillConflict "backfill item is not leased"))
  let eod ← plain (validateResult cfg utc s request item r)
  let s ← plain (close cfg utc identity (s.setItem item.itemId fun i => { i with
    resultEvidence := (keptEvidence cfg r eod i).resultEvidence }))
  let s ← settle cfg utc 0 identity (some identity.workId) (r.settlement cfg s work.workId eod) s
  return r.endRequest utc item (s.setItem item.itemId (r.ended utc))

/-- `complete_item`. -/
def completeItem (cfg : Config) (utc : Instant) (r : CompleteItem) (s : Db) :
    Except (Raised Err Db) Db := do
  let item ← plain (need (s.items.find? r.itemId) (.backfill "backfill item not found"))
  match r.previous cfg s with
  | some previous =>
    plain (ensure (r.replays previous item)
      (.backfillConflict "historical completion replay differs"))
    return s
  | none =>
    plain (ensure (r.outcome != .partly || cfg.provider == .factset)
      (.backfillValidation "partial is restricted to fenced FactSet EOD v2"))
    let identity ← plain (need r.identity
      (.backfillConflict "provider work protocol is required"))
    let identity := { identity with token := r.leaseToken }
    let (work, _) ← plain (fence cfg utc identity false s)
    plain (ensure (work.kind == .historical && work.stableKey == .historical item.itemId)
      (.backfillConflict "historical completion owner scope differs"))
    let s := (expireRequests cfg utc s).setItem item.itemId
      ({ · with leaseExpiresAt := s.owner.expiresAt })
    let item ← plain (need (s.items.find? item.itemId) (.backfill "backfill item not found"))
    let request ← plain (need (s.requests.find? item.requestId)
      (.integrity "historical_backfill_item_request_id_fkey"))
    if drainsOnly request item then drainItem cfg utc identity work item r s
    else finishItem cfg utc identity work item request r s

/-- `POST /historical-backfills/{item_id}/complete`. -/
def completeEndpoint (cfg : Config) (utc : Instant) (r : CompleteItem) (s : Db) :
    Except (Raised Err Db) Db := do
  plain (ensure (r.outcome == .failed || !(truthy r.failureCode || truthy r.failureMessage))
    (.http 422 "completed item cannot include failure details"))
  completeItem cfg utc r s

end FinDB.ProviderWork
