import FinDB.Lib.Table
import FinDB.Vocabulary

/-! # The rows of the provider FIFO

One environment and one provider: the five `provider_work_*` tables, the
historical request and item rows that share their transaction lock, and the
registry rows these services only read. Every service locks the provider before
it reads, so one operation is one atomic step on `Db`. -/
namespace FinDB.ProviderWork
open FinDB.Lib

/-! ## Documents kept as JSON -/

/-- A `plan_id` of a manifest: the UUID it parses to, or other text. -/
inductive PlanRef where
  | uuid (id : Uuid)
  | text
deriving DecidableEq, Repr

/-- A `{"schema_id": .., "schema_version": ..}` pair. -/
structure SchemaRef where
  schemaId : String
  schemaVersion : Nat
deriving DecidableEq, Repr

def marketEodV2 : SchemaRef := ⟨"market_eod", 2⟩

structure ManifestMember where
  key : MemberKey
  mappingStatus : Option String
  sourceSymbol : Option String
  payloadSha256 : Option String
deriving DecidableEq, Repr

/-- The frozen expected scope, with every key the services read. -/
structure Manifest where
  members : List ManifestMember
  contract : Option SchemaRef
  calendarSkip : Bool
  planId : Option PlanRef
  mode : Option String
  noDataEvidence : List MemberKey
  universeReleaseId : Option String
deriving DecidableEq, Repr

def Manifest.keys (m : Manifest) : List MemberKey := m.members.map (·.key)

/-- `EODMemberResult.outcome`. -/
inductive EODOutcome where
  | data | noData | invalid | missing | mappingGap
deriving DecidableEq, Repr

/-- `EODMemberResult.reason`. -/
inductive EODReason where
  | rowStructureInvalid | noSourceRow
deriving DecidableEq, Repr

structure EODRawEvidence where
  ref : String
  sha256 : String
deriving DecidableEq, Repr

structure EODMemberResult where
  memberKey : MemberKey
  outcome : EODOutcome
  raw : Option EODRawEvidence
  reason : Option EODReason
deriving DecidableEq, Repr

/-- `EODCompletionEvidence`, before `model_validate` has looked at it. -/
structure EODCompletionEvidence where
  version : Nat
  schemaId : String
  schemaVersion : Nat
  tradeDate : Date
  members : List EODMemberResult
  itemId : Option Uuid
  requestId : Option Uuid
deriving DecidableEq, Repr

/-- One row of a TAIFEX whole-day report. -/
structure TaifexRow where
  productCode : String
  contractCode : String
  session : String
  noTrade : Bool
deriving DecidableEq, Repr

/-- `f"{product_code}|{contract_code}|{session}"`. -/
def TaifexRow.member (r : TaifexRow) : MemberKey :=
  r.productCode ++ "|" ++ r.contractCode ++ "|" ++ r.session

/-- `HistoricalResultEvidence`. -/
structure TaifexEvidence where
  itemId : Uuid
  requestId : Uuid
  tradeDate : Date
  fetchedAt : Instant
  manifestRef : String
  manifestSha256 : String
  rows : List TaifexRow
deriving DecidableEq, Repr

inductive ResultEvidence where
  | eod (evidence : EODCompletionEvidence)
  | taifex (evidence : TaifexEvidence)
deriving DecidableEq, Repr

inductive Outcome where
  | completed | partly | failed | cancelled | retry
deriving DecidableEq, Repr

/-- `historical_backfill_item.status`; `partly` is the source's "partial". -/
inductive ItemStatus where
  | pending | running | completed | partly | failed | cancelled | skippedCalendar
deriving DecidableEq, Repr

/-- Still to be acquired: `status in {"pending", "running"}`. -/
def ItemStatus.live : ItemStatus → Bool
  | .pending | .running => true
  | .completed | .partly | .failed | .cancelled | .skippedCalendar => false

inductive RequestStatus where
  | queued | running | completed | partly | failed | cancelled
deriving DecidableEq, Repr

/-- `status in {"queued", "running"}`. -/
def RequestStatus.live : RequestStatus → Bool
  | .queued | .running => true
  | .completed | .partly | .failed | .cancelled => false

/-- `completion_report` of `complete_item`. -/
structure CompletionReport where
  outcome : Outcome
  runId : Option Uuid
  failureCode : Option String
  failureMessage : Option String
  resultEvidence : Option ResultEvidence
deriving DecidableEq, Repr

/-- `proof["pending_source_errors"]`: a list entry that is no string is `none`. -/
inductive SourceErrors where
  | absent
  | notAList
  | keys (entries : List (Option MemberKey))
deriving DecidableEq, Repr

/-- A settlement proof: the keys the services read, and the rest of the document. -/
structure Proof where
  eod : Option EODCompletionEvidence
  manualPendingPrepared : List MemberKey
  noData : List MemberKey
  pendingSourceErrors : SourceErrors
  sourceErrorPending : Bool
  historicalCompletion : Option CompletionReport
  historicalItemStatus : Option ItemStatus
  rest : List (String × String)
deriving DecidableEq, Repr

def Proof.empty : Proof := ⟨none, [], [], .absent, false, none, none, []⟩

structure CalendarDay where
  tradeDate : Date
  isOpen : Bool
  regularClose : Nat
  timezone : Zone
deriving DecidableEq, Repr

structure Scope where
  itemId : Option Uuid
  legacyId : Option Uuid
  requestId : Option Uuid
  runId : Option Uuid
  calendarSnapshot : Option CalendarDay
  rest : List (String × String)
deriving DecidableEq, Repr

def Scope.empty : Scope := ⟨none, none, none, none, none, []⟩

/-! ## The FIFO tables -/

/-- The four shapes of `stable_key`; their prefixes keep them apart. -/
inductive StableKey where
  | daily (profile : Profile) (dataset : DatasetKey) (tradeDate : Date)
  | historical (itemId : Uuid)
  | maintenance (dataset : DatasetKey) (name : String)
  | rerun (runId : Uuid)
deriving DecidableEq, Repr

/-- `provider_work.state`; `partly` is the source's "partial". -/
inductive WorkState where
  | queued | running | recoveryBlocked | completed | partly | failed | cancelled | calendarClosed
deriving DecidableEq, Repr

/-- A settled end: completed, partial, failed or cancelled. -/
def WorkState.terminal : WorkState → Bool
  | .completed | .partly | .failed | .cancelled => true
  | .queued | .running | .recoveryBlocked | .calendarClosed => false

/-- `provider_work_attempt.state`; `opened` is the source's "open". -/
inductive AttemptState where
  | queued | opened | recoveryBlocked | closed | draining | settled
deriving DecidableEq, Repr

/-- A round that holds the provider. -/
def AttemptState.active : AttemptState → Bool
  | .opened | .recoveryBlocked | .closed | .draining => true
  | .queued | .settled => false

structure Work where
  workId : Uuid
  stableKey : StableKey
  kind : Kind
  datasetKey : DatasetKey
  tradeDate : Option Date
  executionProfile : Option Profile
  scope : Scope
  manifest : Option Manifest
  state : WorkState
  completedAt : Option Instant
deriving DecidableEq, Repr

structure Attempt where
  attemptId : Uuid
  queueOrder : Nat
  workId : Uuid
  attemptNumber : Nat
  state : AttemptState
  notBefore : Instant
  drainOnly : Bool
  generation : Option Nat
  token : Option Uuid
  startedAt : Option Instant
  settledAt : Option Instant
  outcome : Option Outcome
  failureCode : Option String
  proof : Option Proof
deriving DecidableEq, Repr

/-- The one owner slot. `lock_provider` creates it with generation 0, so it is
always there. -/
structure Owner where
  attemptId : Option Uuid
  generation : Nat
  token : Option Uuid
  heartbeatAt : Option Instant
  expiresAt : Option Instant
  hostLockIdentity : Option String
  recoveryReason : Option String
  acquisitionNotBefore : Option Instant
deriving DecidableEq, Repr

def Owner.idle : Owner := ⟨none, 0, none, none, none, none, none, none⟩

structure Descriptor where
  bodySha256 : String
  payloadSha256 : String
  canonicalMembers : List MemberKey
  jobKey : Option String
  confirmed : Bool
deriving DecidableEq, Repr

structure Prepared where
  workId : Uuid
  deliveryKey : String
  descriptor : Descriptor
  body : String
deriving DecidableEq, Repr

def Prepared.key (p : Prepared) : Uuid × String := (p.workId, p.deliveryKey)

structure Receipt where
  runId : Uuid
  workId : Uuid
  attemptId : Uuid
  memberKey : String
  payloadSha256 : String
deriving DecidableEq, Repr

/-! ## Historical requests -/

structure SnapshotMember where
  memberKey : MemberKey
  providerSymbol : Option String
  mappingStatus : String
deriving DecidableEq, Repr

structure UniverseSnapshot where
  releaseId : String
  members : List SnapshotMember
deriving DecidableEq, Repr

structure Request where
  requestId : Uuid
  requestKey : String
  datasetKey : DatasetKey
  startDate : Date
  endDate : Date
  universeSnapshot : Option UniverseSnapshot
  status : RequestStatus
  cancelledBy : Option String
  cancelledAt : Option Instant
  startedAt : Option Instant
  completedAt : Option Instant
  failureCode : Option String
  failureMessage : Option String
  createdAt : Instant
deriving DecidableEq, Repr

structure Item where
  itemId : Uuid
  requestId : Uuid
  tradeDate : Date
  calendarSnapshot : Option CalendarDay
  resultEvidence : Option ResultEvidence
  status : ItemStatus
  startedAt : Option Instant
  leaseToken : Option Uuid
  leaseExpiresAt : Option Instant
  leaseAttempt : Nat
  completedAt : Option Instant
  failureCode : Option String
  failureMessage : Option String
  runId : Option Uuid
deriving DecidableEq, Repr

/-! ## Registry rows -/

structure Run where
  status : RunStatus
  source : Provider
  datasetKey : DatasetKey
  batchDataDate : Option Date
  schemaId : Option String
  schemaVersion : Option Nat
  deliveryMode : Option String
  coverageStartDate : Option Date
  coverageEndDate : Option Date
  snapshotId : Option String
  dailyUpdateId : Option String
  sequence : Option Nat
  sequenceCount : Option Nat
  totalRecords : Nat
  successRecords : Nat
  failedRecords : Nat
  workItemId : Option StableKey
  rawPayloadId : Option Uuid
deriving DecidableEq, Repr

/-- Every record accepted and written. -/
def Run.clean (r : Run) : Bool :=
  r.status == .completed && r.failedRecords == 0 && r.totalRecords == r.successRecords

inductive IssueType where
  | ohlcHighCheck | ohlcLowCheck | duplicateKey
  | delistedNoTradeDate | delistedNoDate | delistedAfterDate
  | other (name : String)
deriving DecidableEq, Repr

structure DQIssue where
  runId : Uuid
  issueType : IssueType
  isError : Bool
  /-- `str(raw_data.get("symbol", "")).strip().upper()`. -/
  symbol : String
  tradeDate : Option Date
deriving DecidableEq, Repr

inductive DecisionKind where
  | planned | skippedCalendar
deriving DecidableEq, Repr

structure Control where
  provider : Provider
  desiredRunning : Bool
  retired : Bool
deriving DecidableEq, Repr

structure HkCutover where
  provider : Option String
  previousProvider : Option String
  /-- `none` when the text is no date. -/
  effectiveDate : Option Date
deriving DecidableEq, Repr

structure ContractDeclaration where
  schemaId : String
  acceptedVersions : List Nat
  providerScope : List Provider
deriving DecidableEq, Repr

structure Dataset where
  isActive : Bool
  declaration : Option ContractDeclaration
  hkProviderCutover : Option HkCutover
deriving DecidableEq, Repr

structure PlanMember where
  memberKey : MemberKey
  mappingStatus : String
  providerSymbol : Option String
  symbol : String
  exchange : String
  currency : String
deriving DecidableEq, Repr

structure Plan where
  provider : Provider
  datasetKey : DatasetKey
  tradeDate : Date
  executionProfile : Profile
  members : List PlanMember
deriving DecidableEq, Repr

/-- What `get_plan` answers: the frozen plan and whether `reconcile_plan`
accounts for every member. -/
structure PlanStatus where
  tradeDate : Date
  executionProfile : Profile
  complete : Bool
deriving DecidableEq, Repr

structure RawPayload where
  sourceRawRef : Option String
  sourceRawSha256 : Option String
  fetchedAt : Instant
  data : List TaifexRow
deriving DecidableEq, Repr

/-- The rows other services write. They may change between any two operations;
a receipt's run exists by its foreign key, so `runs` is total. -/
structure Registry where
  runs : Uuid → Run
  rawPayloads : Uuid → Option RawPayload
  datasets : DatasetKey → Option Dataset
  /-- `scheduler_control[f"{profile}_{provider}_v1"]`. -/
  controls : Option Profile → Option Control
  decisions : DatasetKey → Option Date → Option Profile → Option DecisionKind
  plans : Uuid → Option Plan
  /-- `reconcile_plan` lists no gap for the member. -/
  resolved : Uuid → MemberKey → Bool
  /-- `get_plan(plan_id, allowed_datasets=[dataset])`, or the error it raises. -/
  getPlan : Uuid → DatasetKey → Except String PlanStatus
  /-- `effective_days` of the dataset's market, or the error it raises. -/
  effectiveDays : DatasetKey → Date → Date → Except String (List CalendarDay)
  /-- Some scheduler control of this provider lists the dataset. -/
  schedulerDatasets : DatasetKey → Bool
  /-- The newest release published by a date, with its members. -/
  publishedUniverse : DatasetKey → Date → Option UniverseSnapshot

/-! ## The database -/

structure Repair where
  repairId : Uuid
  workId : Uuid
  planId : Uuid
  requestId : String
  requestSha256 : String
  memberKey : MemberKey
  providerSymbol : Option String
deriving DecidableEq, Repr

structure Closure where
  workId : Uuid
  requestId : String
  requestSha256 : String
deriving DecidableEq, Repr

structure Db where
  works : Table Work.workId
  attempts : Table Attempt.attemptId
  /-- The identity sequence behind `queue_order`. -/
  queueSeq : Nat
  owner : Owner
  prepared : Table Prepared.key
  receipts : Table Receipt.runId
  requests : Table Request.requestId
  items : Table Item.itemId
  repairs : Table Repair.repairId
  closures : Table Closure.workId
  /-- `delivery_member_evidence`: only ever inserted. -/
  evidence : List (Uuid × MemberKey)
  /-- `dq_issue`: only ever inserted. -/
  issues : List DQIssue
  /-- Plan members whose outcome is `no_data` with evidence; `record_outcome`
  refuses to change one. -/
  noData : List (Uuid × MemberKey)
  registry : Registry

/-- What `validate_ingress_request` reads off a delivery body. -/
structure Ingress where
  /-- `none` for a source that is no provider. -/
  source : Option Provider
  datasetKey : DatasetKey
  dataDate : Option Date
  idempotencyKey : String
  /-- The canonical members of its rows, sorted and without repetition. -/
  members : List MemberKey
  payloadSha256 : String
deriving DecidableEq, Repr

/-- What stays fixed for a deployment. -/
structure Config where
  provider : Provider
  production : Bool
  fullMarketEnabled : Bool
  /-- The provider's calendar switch in the settings. -/
  skipNonTradingDays : Bool
  clock : Clock
  /-- `validate_ingress_request(json.loads(body))`; `none` when it raises. -/
  ingress : String → Option Ingress
  /-- `hashlib.sha256(body.encode()).hexdigest()`. -/
  sha256 : String → String

/-- An empty database over a registry. -/
def Db.init (registry : Registry) : Db where
  works := Table.empty
  attempts := Table.empty
  queueSeq := 0
  owner := Owner.idle
  prepared := Table.empty
  receipts := Table.empty
  requests := Table.empty
  items := Table.empty
  repairs := Table.empty
  closures := Table.empty
  evidence := []
  issues := []
  noData := []
  registry := registry

/-! ## Errors -/

/-- What a service raises. Endpoints commit on `draining` and roll back on every
other one. -/
inductive Err where
  | work (message : String) (code : String)
  | draining (message : String) (code : String)
  | suspended (message : String)
  | backfill (message : String)
  | backfillConflict (message : String)
  | backfillValidation (message : String)
  | fullMarket (message : String) (status : Nat)
  | value (message : String)
  | http (status : Nat) (detail : String)
  | integrity (constraint : String)
deriving DecidableEq, Repr

/-- `str(exc)`. -/
def Err.message : Err → String
  | .work m _ | .draining m _ | .suspended m | .backfill m | .backfillConflict m
  | .backfillValidation m | .fullMarket m _ | .value m | .http _ m | .integrity m => m

/-- `ProviderWorkError(message)` with its default code. -/
def conflict (message : String) : Err := .work message "PROVIDER_WORK_CONFLICT"

/-- Python truth of an optional text. -/
def truthy (text : Option String) : Bool := text.any (· != "")

/-! ## Queries -/

namespace Db
variable (s : Db)

def attemptsOf (workId : Uuid) : List Attempt := s.attempts.rows.filter (·.workId == workId)

def preparedOf (workId : Uuid) : List Prepared := s.prepared.rows.filter (·.workId == workId)

/-- `prepared_keys`. -/
def preparedKeys (workId : Uuid) : List String := (s.preparedOf workId).map (·.deliveryKey)

def receiptsOf (workId : Uuid) : List Receipt := s.receipts.rows.filter (·.workId == workId)

/-- Delivered bytes that a cancellation must not abandon. -/
def retained (workId : Uuid) : Bool :=
  !(s.preparedOf workId).isEmpty || !(s.receiptsOf workId).isEmpty

/-- `prepared_descriptors(work_id, key).get(key)`. -/
def descriptor (workId : Uuid) (deliveryKey : String) : Option Descriptor :=
  (s.prepared.find? (workId, deliveryKey)).map (·.descriptor)

def run (runId : Uuid) : Run := s.registry.runs runId

/-- Every accepted run has ended. -/
def runsTerminal (workId : Uuid) : Bool :=
  (s.receiptsOf workId).all fun r => (s.run r.runId).status.terminalRun

/-- Prepared keys that no receipt accepts. -/
def pendingPrepared (workId : Uuid) : List String :=
  (s.preparedKeys workId).filter fun k => !(s.receiptsOf workId).any (·.memberKey == k)

def workByKey (key : StableKey) : Option Work := s.works.rows.find? (·.stableKey == key)

def itemsOf (requestId : Uuid) : List Item := s.items.rows.filter (·.requestId == requestId)

/-! ## Updates

One row at a time, as the session writes the attributes of a loaded object. -/

def setWork (workId : Uuid) (f : Work → Work)
    (hf : ∀ r, (f r).workId = r.workId := by intro _; rfl) : Db :=
  { s with works := s.works.modify workId f hf }

def setAttempt (attemptId : Uuid) (f : Attempt → Attempt)
    (hf : ∀ r, (f r).attemptId = r.attemptId := by intro _; rfl) : Db :=
  { s with attempts := s.attempts.modify attemptId f hf }

def setItem (itemId : Uuid) (f : Item → Item)
    (hf : ∀ r, (f r).itemId = r.itemId := by intro _; rfl) : Db :=
  { s with items := s.items.modify itemId f hf }

def setRequest (requestId : Uuid) (f : Request → Request)
    (hf : ∀ r, (f r).requestId = r.requestId := by intro _; rfl) : Db :=
  { s with requests := s.requests.modify requestId f hf }

variable {s}

theorem mem_setWork {workId : Uuid} {f : Work → Work} (hf : ∀ r, (f r).workId = r.workId)
    {w : Work} : w ∈ (s.setWork workId f hf).works ↔
      (w ∈ s.works ∧ w.workId ≠ workId) ∨ ∃ v ∈ s.works, v.workId = workId ∧ w = f v := by
  rw [setWork, Table.mem_modify]

theorem mem_setAttempt {attemptId : Uuid} {f : Attempt → Attempt}
    (hf : ∀ r, (f r).attemptId = r.attemptId) {a : Attempt} :
    a ∈ (s.setAttempt attemptId f hf).attempts ↔
      (a ∈ s.attempts ∧ a.attemptId ≠ attemptId) ∨
        ∃ b ∈ s.attempts, b.attemptId = attemptId ∧ a = f b := by
  rw [setAttempt, Table.mem_modify]

theorem mem_setItem {itemId : Uuid} {f : Item → Item} (hf : ∀ r, (f r).itemId = r.itemId)
    {i : Item} : i ∈ (s.setItem itemId f hf).items ↔
      (i ∈ s.items ∧ i.itemId ≠ itemId) ∨ ∃ j ∈ s.items, j.itemId = itemId ∧ i = f j := by
  rw [setItem, Table.mem_modify]

theorem mem_setRequest {requestId : Uuid} {f : Request → Request}
    (hf : ∀ r, (f r).requestId = r.requestId) {q : Request} :
    q ∈ (s.setRequest requestId f hf).requests ↔
      (q ∈ s.requests ∧ q.requestId ≠ requestId) ∨
        ∃ p ∈ s.requests, p.requestId = requestId ∧ q = f p := by
  rw [setRequest, Table.mem_modify]

end Db
end FinDB.ProviderWork
