import Mathlib.Data.List.Sort
import FinDB.ProviderWork.Settle

/-! # Historical backfill

A request is a range of dates, an item one date and a work its place in the
FIFO. Requests and items end by cancellation, expiry or `complete_item`; the
work of an item that ended while queued is cancelled here unless delivered
bytes must still drain. -/
namespace FinDB.ProviderWork
open FinDB.Lib

/-! ## Creating a request -/

structure CreateRequest where
  datasetKey : DatasetKey
  startDate : Date
  endDate : Date
  requestKey : String
  today : Option Date
deriving DecidableEq, Repr

/-- `CAPABILITIES`. -/
def supportsBackfill : Provider → DatasetKey → Bool
  | .twelveData, d => d == "us_equity_eod"
  | .finlab, d => d == "tw_equity_eod"
  | .shioaji, d => d == "tw_equity_minute" || d == "tw_etf_minute"
  | .taifex, d => d == "tw_futures_eod"
  | .factset, d => d == "hk_equity_eod"

/-- `_historical_policy(provider)["skip_non_trading_days"]`. -/
def historicalSkips (cfg : Config) : Bool :=
  match cfg.provider with
  | .taifex | .factset => true
  | _ => cfg.skipNonTradingDays

/-- `today` as `create_request` defaults it. -/
def requestToday (cfg : Config) (utc : Instant) : Date :=
  match cfg.provider with
  | .shioaji | .taifex | .factset => providerCurrentDate cfg utc
  | .twelveData | .finlab => (cfg.clock.localTime "UTC" utc).date

/-- FactSet requests freeze one current cohort. -/
def requestUniverse (cfg : Config) (utc : Instant) (datasetKey : DatasetKey) (today : Date)
    (dataset : Dataset) (s : Db) : Except Err (Option UniverseSnapshot) :=
  if cfg.provider == .factset then do
    ensure (acquisitionAllowed cfg utc dataset none false)
      (.backfill "FactSet acquisition cutover is not effective")
    let snapshot ← need (s.registry.publishedUniverse datasetKey today)
      (.backfill "FactSet requires a published current HKEX universe")
    ensure (decide (1 ≤ snapshot.members.length ∧ snapshot.members.length ≤ 10000))
      (.backfill "FactSet current cohort is empty or exceeds its bound")
    return some snapshot
  else .ok none

/-- The item of one calendar day. -/
def newItem (cfg : Config) (utc : Instant) (requestId itemId : Uuid) (d : CalendarDay) : Item :=
  let skipped := historicalSkips cfg && !d.isOpen
  { itemId, requestId, tradeDate := d.tradeDate, calendarSnapshot := some d, resultEvidence := none,
    status := if skipped then .skippedCalendar else .pending, startedAt := none, leaseToken := none,
    leaseExpiresAt := none, leaseAttempt := 0, completedAt := if skipped then some utc else none,
    failureCode := none, failureMessage := none, runId := none }

/-- The request row: already completed when every day is skipped. -/
def newRequest (utc : Instant) (requestId : Uuid) (r : CreateRequest)
    (snapshot : Option UniverseSnapshot) (items : List Item) : Request :=
  let skipped := items.all (·.status == .skippedCalendar)
  { requestId, requestKey := r.requestKey, datasetKey := r.datasetKey, startDate := r.startDate,
    endDate := r.endDate, universeSnapshot := snapshot,
    status := if skipped then .completed else .queued, cancelledBy := none, cancelledAt := none,
    startedAt := none, completedAt := if skipped then some utc else none, failureCode := none,
    failureMessage := none, createdAt := utc }

def addItem (s : Db) (item : Item) : Except Err Db := do
  let items ← need (s.items.insert? item) (.integrity "historical_backfill_item_pkey")
  return { s with items }

/-- The enqueue of a pending item: eligible from the close of its session. -/
def itemWork (cfg : Config) (datasetKey : DatasetKey) (item : Item) (d : CalendarDay) :
    EnqueueRequest where
  stableKey := .historical item.itemId
  kind := .historical
  datasetKey := datasetKey
  tradeDate := some item.tradeDate
  executionProfile := none
  scope := { Scope.empty with itemId := some item.itemId, requestId := some item.requestId }
  notBefore :=
    let close := if cfg.provider == .taifex then max d.regularClose (timeOfDay 17 0)
      else d.regularClose
    some ⟨cfg.clock.combine d.timezone item.tradeDate close, true⟩

def enqueueItem (cfg : Config) (utc : Instant) (datasetKey : DatasetKey) (s : Db)
    (row : (Uuid × Uuid) × Item) : Except Err Db :=
  match row.2.status, row.2.calendarSnapshot with
  | .pending, some d => do
    let (s', _) ← enqueue utc row.1 (itemWork cfg datasetKey row.2 d) s
    return s'
  | _, _ => .ok s

/-- `create_request`. `ids i` are the item, work and attempt ids of day `i`. -/
def createRequest (cfg : Config) (utc : Instant) (requestId : Uuid)
    (ids : Nat → Uuid × Uuid × Uuid) (r : CreateRequest) (s : Db) : Except Err Db := do
  let today := r.today.getD (requestToday cfg utc)
  let maxDays : Int := maxBackfillDays cfg
  ensure (decide (today - (maxDays - 1) ≤ r.startDate ∧ r.endDate ≤ today))
    (.backfill s!"backfill dates must be within the latest {maxDays} calendar days")
  ensure (decide (r.endDate - r.startDate < maxDays))
    (.backfill s!"backfill range exceeds {maxDays} days")
  match s.requests.rows.find? (·.requestKey == r.requestKey) with
  | some existing =>
    ensure (existing.datasetKey == r.datasetKey && existing.startDate == r.startDate &&
        existing.endDate == r.endDate)
      (.backfillConflict "request_key is already bound to another scope")
    return s
  | none =>
    let dataset ← need ((s.registry.datasets r.datasetKey).filter (·.isActive))
      (.backfill "dataset is not active")
    ensure (supportsBackfill cfg.provider r.datasetKey)
      (.backfill "provider does not support historical backfill for dataset")
    ensure (s.registry.schedulerDatasets r.datasetKey)
      (.backfill "provider is not active for dataset")
    let snapshot ← requestUniverse cfg utc r.datasetKey today dataset s
    let days ← (s.registry.effectiveDays r.datasetKey r.startDate r.endDate).mapError Err.value
    let rows := days.zipIdx.map fun (d, i) =>
      ((ids i).2, newItem cfg utc requestId (ids i).1 d)
    let items := rows.map (·.2)
    let requests ← need (s.requests.insert? (newRequest utc requestId r snapshot items))
      (.integrity "historical_backfill_request_pkey")
    let s ← items.foldlM addItem { s with requests }
    rows.foldlM (enqueueItem cfg utc r.datasetKey) s

/-! ## Cancellation and expiry -/

/-- The queued attempts of a work. -/
def queuedOf (workId : Uuid) (a : Attempt) : Bool := a.workId == workId && a.state == .queued

/-- `_cancel_queued_item_work`: retained bytes keep the work, which then only drains. -/
def cancelQueuedItemWork (now : Instant) (itemId : Uuid) (s : Db) : Db :=
  match s.workByKey (.historical itemId) with
  | none => s
  | some work =>
    if work.state != .queued then s
    else if s.retained work.workId then
      { s with attempts := s.attempts.update (queuedOf work.workId) ({ · with drainOnly := true }) }
    else
      { s.setWork work.workId ({ · with state := .cancelled, completedAt := some now }) with
        attempts := s.attempts.update (queuedOf work.workId)
          ({ · with state := .settled, outcome := some .cancelled, settledAt := some now }) }

/-- The item keeps its row and loses its lease. -/
def Item.cancelled (now : Instant) (item : Item) : Item :=
  { item with status := .cancelled, completedAt := some now, leaseToken := none,
              leaseExpiresAt := none }

/-- `item.status = "cancelled"` when it was still to be acquired. -/
def cancelLive (now : Instant) (item : Item) (s : Db) : Db :=
  if item.status.live then s.setItem item.itemId (Item.cancelled now) else s

/-- The loop of `cancel_request`. -/
def cancelItem (now : Instant) (s : Db) (item : Item) : Db :=
  cancelLive now item (cancelQueuedItemWork now item.itemId s)

/-- `cancel_request`. -/
def cancelRequest (utc : Instant) (requestId : Uuid) (actor : String) (s : Db) : Except Err Db := do
  let row ← need (s.requests.find? requestId) (.backfill "backfill request not found")
  ensure row.status.live (.backfillConflict "backfill request is already terminal")
  let s := s.setRequest requestId ({ · with
    status := .cancelled, cancelledBy := some actor, cancelledAt := some utc })
  return (s.itemsOf requestId).foldl (cancelItem utc) s

/-- The rows `expire_requests` selects, oldest request and date first. -/
def expiredItems (cfg : Config) (now : Instant) (s : Db) : List Item :=
  let selected := s.items.rows.filterMap fun item =>
    (s.requests.find? item.requestId).bind fun request =>
      if request.status.live && item.status.live && decide (item.tradeDate < expiryCutoff cfg now)
      then some (request, item) else none
  (selected.insertionSort fun x y =>
    x.1.createdAt < y.1.createdAt ∨ (x.1.createdAt = y.1.createdAt ∧
      x.2.tradeDate ≤ y.2.tradeDate)).map (·.2)

/-- The loop over the siblings of an expired item. -/
def expireSibling (now : Instant) (s : Db) (sibling : Item) : Db :=
  cancelQueuedItemWork now sibling.itemId (cancelLive now sibling s)

def Item.expired (now : Instant) (item : Item) : Item :=
  { item with status := .failed, completedAt := some now, failureCode := some "BACKFILL_EXPIRED",
              failureMessage := some "historical date expired", leaseToken := none,
              leaseExpiresAt := none }

def Request.expired (now : Instant) (request : Request) : Request :=
  { request with status := .failed, completedAt := some now,
                 failureCode := some "BACKFILL_EXPIRED",
                 failureMessage := some "historical date expired" }

/-- One row of `expire_requests`: it fails with its request unless an earlier
row already ended either. -/
def expireItem (now : Instant) (s : Db) (selected : Item) : Db :=
  match s.items.find? selected.itemId, s.requests.find? selected.requestId with
  | some item, some request =>
    if item.status.live && request.status.live then
      let s := s.setItem item.itemId (Item.expired now)
      let s := s.setRequest request.requestId (Request.expired now)
      (s.itemsOf request.requestId).foldl (expireSibling now) s
    else s
  | _, _ => s

/-- `expire_requests`. -/
def expireRequests (cfg : Config) (now : Instant) (s : Db) : Db :=
  (expiredItems cfg now s).foldl (expireItem now) s

/-- Cancelled items of an ended request. -/
def cancelledItems (s : Db) : List Item :=
  s.items.rows.filter fun item => item.status == .cancelled &&
    (s.requests.find? item.requestId).any fun r => r.status == .cancelled || r.status == .failed

/-- `reconcile_cancelled_queue`. -/
def reconcileCancelledQueue (cfg : Config) (now utc : Instant) (s : Db) : Db :=
  let s := expireRequests cfg now s
  (cancelledItems s).foldl (fun s item => cancelQueuedItemWork utc item.itemId s) s

/-! ## Leasing an item -/

/-- `_session_closed`. -/
def sessionClosed (cfg : Config) (item : Item) (now : Instant) : Except Err Bool := do
  let snapshot ← need (item.calendarSnapshot.filter (·.tradeDate == item.tradeDate))
    (.backfill "historical calendar snapshot is invalid")
  let close := if cfg.provider == .taifex then max snapshot.regularClose (timeOfDay 17 0)
    else snapshot.regularClose
  return decide (cfg.clock.combine snapshot.timezone item.tradeDate close ≤ now)

/-- The lease `claim_next_item` projects from the owner slot. -/
def Db.leaseItem (s : Db) (itemId : Uuid) : Db :=
  s.setItem itemId ({ · with leaseToken := s.owner.token, leaseExpiresAt := s.owner.expiresAt })

/-- The item and its request start running. -/
def Db.startItem (s : Db) (item : Item) (now : Instant) : Db :=
  (s.setItem item.itemId fun i => { i with
      status := .running, startedAt := i.startedAt <|> some now, leaseToken := s.owner.token,
      leaseExpiresAt := s.owner.expiresAt, leaseAttempt := i.leaseAttempt + 1 }).setRequest
    item.requestId fun r => { r with status := .running, startedAt := r.startedAt <|> some now }

/-- The end of `claim_next_item`: a cancelled item with retained bytes only gets its
lease back, a live one starts, and an open session is left alone. -/
def projectItem (cfg : Config) (now : Instant) (s : Db) (work : Work) (item : Item)
    (request : Request) : Except Err Db :=
  let cancelledPrepared :=
    (request.status == .cancelled || request.status == .failed) && s.retained work.workId
  if !cancelledPrepared && !request.status.live then .ok s
  else do
    let closed ← sessionClosed cfg item now
    return if !closed then s
      else if cancelledPrepared then s.leaseItem item.itemId
      else s.startItem item now

/-- `claim_next_item`, for the historical work its caller owns. -/
def claimNextItem (cfg : Config) (now utc : Instant) (datasets : List DatasetKey)
    (identity : Option FenceIdentity) (s : Db) : Except Err Db := do
  let s := expireRequests cfg now s
  let identity ← need identity (.backfillConflict "provider work protocol is required")
  let (work, _) ← (fence cfg utc identity false s).mapError fun e => .backfillConflict e.message
  ensure (work.kind == .historical && datasets.contains work.datasetKey)
    (.backfillConflict "provider work historical scope differs")
  let itemId ← need work.itemRef (.value "badly formed hexadecimal UUID string")
  match s.items.find? itemId with
  | none => return s
  | some item =>
    let request ← need (s.requests.find? item.requestId)
      (.integrity "historical_backfill_item_request_id_fkey")
    projectItem cfg now s work item request

end FinDB.ProviderWork
