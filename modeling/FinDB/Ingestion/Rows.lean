import FinDB.Normalization.Steps
import FinDB.ProviderWork.Steps

/-! # Payloads, deliveries and calls

`ingest_contract` runs once for each request, any number of them at a time. A call
reads what others have committed, keeps its own rows to itself until it commits,
and holds the advisory locks it took until its transaction ends. -/
namespace FinDB.Ingestion
open FinDB.Lib

/-! ## The tables -/

/-- `uq_raw_payload_idempotency_scope`; a NULL client is a client like any other. -/
structure IdempotencyScope where
  sourceClientId : Option Uuid
  datasetKey : DatasetKey
  idempotencyKey : String
deriving DecidableEq, Repr

/-- `market_payload`. -/
structure RawPayload where
  rawPayloadId : Uuid
  sourceClientId : Option Uuid
  datasetKey : DatasetKey
  source : String
  requestKey : String
  idempotencyKey : String
  schemaId : Option String
  schemaVersion : Option Nat
  /-- NULL in rows older than the column. -/
  payloadSha256 : Option String
  /-- The stored document. -/
  payload : String
  fetchedAt : Instant
  expireAt : Instant
  runId : Uuid
  createdAt : Instant
deriving DecidableEq, Repr

def RawPayload.scope (raw : RawPayload) : IdempotencyScope :=
  ⟨raw.sourceClientId, raw.datasetKey, raw.idempotencyKey⟩

/-- `ingestion_run`, the columns that are written once. The columns a worker writes
are `Normalization.Run`, under the same id. -/
structure Delivery where
  runId : Uuid
  datasetKey : DatasetKey
  source : String
  sourceClientId : Option Uuid
  rawPayloadId : Option Uuid
  deliveryPartId : Option Uuid
  requestKey : String
  schemaId : Option String
  schemaVersion : Option Nat
  batchDataDate : Option Date
  isRerun : Bool
deriving DecidableEq, Repr

/-- `parse_dataset_contract_declaration`, the fields ingestion reads. -/
structure ContractDeclaration where
  schemaId : String
  acceptedSchemaVersions : List Nat
  providerScope : List String
  defaultCurrency : Option String
deriving DecidableEq, Repr

/-- `dataset_registry`. -/
structure Dataset where
  isActive : Bool
  /-- The parsed declaration, or what parsing or its scope check raised. -/
  declaration : Except String (Option ContractDeclaration)

/-! ## Requests -/

/-- A validated `IngressRequest`. -/
structure IngressRequest where
  source : String
  datasetKey : DatasetKey
  requestKey : String
  idempotencyKey : String
  schemaId : String
  schemaVersion : Nat
  fetchedAt : Instant
  /-- `payload.batch.data_date`. -/
  dataDate : Option Date
  /-- `payload.model_dump(mode="json")`. -/
  payload : String
  /-- The member each row is about: a contract with its session, or a symbol. -/
  members : List MemberKey
  /-- Some `market_eod` row names no currency. -/
  lacksCurrency : Bool
deriving DecidableEq, Repr

/-- `db.info` of an authenticated session. -/
structure Session where
  sourceClientId : Option Uuid
  boundSource : Option String
  allowedDatasets : Option (List DatasetKey)
  providerWork : Option ProviderWork.DeliveryIdentity
deriving DecidableEq, Repr

inductive PolicyOutcome where
  | pass | warn | reject
deriving DecidableEq, Repr

/-- `DeliveryPolicyResult`. -/
structure PolicyResult where
  outcome : PolicyOutcome
  primaryCode : Option String
deriving DecidableEq, Repr

/-- What `ingest_contract` raises. -/
inductive Rejection where
  | sourceIdentityMismatch (message : String)
  | datasetAccessDenied (message : String)
  | datasetNotFound (message : String)
  | datasetInactive (message : String)
  | contractNotConfigured (message : String)
  | schemaNotAllowed (message : String)
  | currencyRequired (message : String)
  | providerWork (e : ProviderWork.Err)
  | fullMarket (message : String) (status : Nat)
  | deliveryPolicy (result : PolicyResult)
  | payloadMismatch (message : String)
  /-- A database error: it is rolled back. -/
  | unavailable
deriving DecidableEq, Repr

/-- The status and the code `accept_canonical_ingest` answers. -/
def Rejection.answer : Rejection → Nat × String
  | .sourceIdentityMismatch _ => (403, "SOURCE_IDENTITY_MISMATCH")
  | .datasetAccessDenied _ => (403, "DATASET_ACCESS_DENIED")
  | .datasetNotFound _ => (400, "DATASET_NOT_FOUND")
  | .datasetInactive _ => (409, "DATASET_INACTIVE")
  | .contractNotConfigured _ => (409, "DATASET_CONTRACT_NOT_CONFIGURED")
  | .schemaNotAllowed _ => (422, "INGRESS_SCHEMA_NOT_ALLOWED")
  | .currencyRequired _ => (422, "CURRENCY_REQUIRED")
  | .providerWork _ => (409, "PROVIDER_WORK_FENCE")
  | .fullMarket _ status => (status, "FULL_MARKET_PLAN_INVALID")
  | .deliveryPolicy result => (422, result.primaryCode.getD "BATCH_RECORD_COUNT_DROP")
  | .payloadMismatch _ => (409, "IDEMPOTENCY_PAYLOAD_MISMATCH")
  | .unavailable => (503, "DATABASE_UNAVAILABLE")

/-! ## Calls -/

/-- The advisory locks of ingestion. -/
inductive LockScope where
  | providerWork (provider : String)
  | canonicalIdempotency (scope : IdempotencyScope)
  | feed (datasetKey : DatasetKey) (source schemaId : String) (schemaVersion : Nat)
deriving DecidableEq, Repr

/-- `(run_id, status, is_duplicate)`. -/
structure Accepted where
  runId : Uuid
  /-- `none` is `unknown`. -/
  status : Option RunStatus
  duplicate : Bool
deriving DecidableEq, Repr

/-- The rows a call has flushed and not yet committed. -/
structure Draft where
  raw : RawPayload
  delivery : Delivery
  receipt : ProviderWork.Receipt
  issue : Option ProviderWork.DQIssue
  now : Instant
  jobId : Uuid
  ids : Normalization.DeliveryIds
deriving DecidableEq, Repr

/-- Where a call of `ingest_contract` stands. -/
inductive Phase where
  | called
  | accepted (work : ProviderWork.Work)
  | validated (work : ProviderWork.Work) (part : Option Uuid)
  /-- The fast path found nothing. -/
  | missed (work : ProviderWork.Work) (part : Option Uuid)
  | keyed (work : ProviderWork.Work) (part : Option Uuid)
  /-- Nothing is stored under the key while its lock is held. -/
  | unclaimed (work : ProviderWork.Work) (part : Option Uuid)
  | passed (work : ProviderWork.Work) (part : Option Uuid) (policy : PolicyResult)
  | flushed (part : Option Uuid) (provider : Provider) (draft : Draft)
  /-- An `IntegrityError` was rolled back. -/
  | rolledBack (part : Option Uuid)
  | found (part : Option Uuid) (raw : RawPayload)
  | finished (part : Option Uuid) (response : Except Rejection Accepted)

/-- A call under its attempt id. -/
structure Call where
  attemptId : Uuid
  session : Session
  request : IngressRequest
  phase : Phase
  /-- The advisory locks of the open transaction. -/
  locks : List LockScope

def Call.scope (c : Call) : IdempotencyScope :=
  ⟨c.session.sourceClientId, c.request.datasetKey, c.request.idempotencyKey⟩

structure State where
  raws : Table RawPayload.scope
  deliveries : Table Delivery.runId
  norm : Normalization.State
  /-- The provider work tables, one database for each provider. -/
  work : Provider → ProviderWork.Db
  datasets : DatasetKey → Option Dataset
  calls : Table Call.attemptId

structure Config where
  work : ProviderWork.Config
  normalization : Normalization.Config
  /-- `payload_sha256` of a stored document. -/
  payloadSha256 : String → String
  /-- `RAW_RETENTION_DAYS`. -/
  rawRetention : Nat
  /-- PostgreSQL's `hashtextextended`. -/
  hashtext : LockScope → Int

def State.init (registry : Provider → ProviderWork.Registry) : State where
  raws := Table.empty
  deliveries := Table.empty
  norm := Normalization.State.init
  work := fun p => ProviderWork.Db.init (registry p)
  datasets := fun _ => none
  calls := Table.empty

/-! ## Queries -/

def providers : List Provider := [.twelveData, .finlab, .shioaji, .taifex, .factset]

theorem mem_providers (p : Provider) : p ∈ providers := by cases p <;> decide

/-- The provider a source names. -/
def providerNamed (source : String) : Option Provider := providers.find? (·.name == source)

/-- The deployment as one provider's services see it. -/
def Config.of (cfg : Config) (p : Provider) : ProviderWork.Config := { cfg.work with provider := p }

/-- No other transaction holds the lock, or one with the same hash. -/
def State.free (cfg : Config) (s : State) (attemptId : Option Uuid) (lock : LockScope) : Bool :=
  s.calls.rows.all fun c =>
    some c.attemptId == attemptId || c.locks.all fun held => cfg.hashtext held != cfg.hashtext lock

/-- `provider_work_receipt`: one row a run over all providers, and its run exists. -/
def State.receiptsSound (s : State) (p : Provider) (db : ProviderWork.Db) : Bool :=
  db.receipts.rows.all fun r =>
    (s.deliveries.find? r.runId).isSome &&
    providers.all fun q => q == p || ((s.work q).receipts.find? r.runId).isNone

def State.setWork (s : State) (p : Provider) (db : ProviderWork.Db) : State :=
  { s with work := fun q => if q = p then db else s.work q }

@[simp] theorem State.setWork_work (s : State) (p q : Provider) (db : ProviderWork.Db) :
    (s.setWork p db).work q = if q = p then db else s.work q := rfl

/-- The keys of the receipts are checked when a transaction commits. -/
def State.commitWork (s : State) (p : Provider) (db : ProviderWork.Db) : Except String State := do
  ensure (s.receiptsSound p db) "provider_work_receipt_pkey"
  return s.setWork p db

/-- The call goes on. -/
def State.move (s : State) (attemptId : Uuid) (phase : Phase) (locks : List LockScope) : State :=
  { s with calls := s.calls.modify attemptId ({ · with phase, locks }) }

/-- The rows a request must not touch when it is refused. -/
def State.rows (s : State) : Table RawPayload.scope × Table Delivery.runId ×
    Normalization.State × (Provider → ProviderWork.Db) :=
  (s.raws, s.deliveries, s.norm, s.work)

@[simp] theorem State.move_rows (s : State) (attemptId : Uuid) (phase : Phase)
    (locks : List LockScope) : (s.move attemptId phase locks).rows = s.rows := rfl

end FinDB.Ingestion
