import FinDB.Ingestion.Rows

/-! # `ingest_contract`, step by step

A step is one statement between two waits: a lock, a read, or the commit. A step that
waits for a lock, or that the call is not at, leaves the state as it is. What
`validate_ingest_part` and `evaluate_delivery_policy` answer depends on plans and older
deliveries; the two answers are inputs of their steps, and they may be anything. -/
namespace FinDB.Ingestion
open FinDB.Lib

variable (cfg : Config)

/-! ## Before the provider lock -/

/-- `provider work protocol is required`. -/
def protocolRequired : Rejection :=
  .providerWork (ProviderWork.conflict "provider work protocol is required")

/-- `provider work delivery scope differs`. -/
def scopeDiffers : Rejection :=
  .providerWork (ProviderWork.conflict "provider work delivery scope differs")

/-- The source and the dataset the credential is bound to, and its claim on a work. -/
def checkSession (session : Session) (request : IngressRequest) : Except Rejection Unit := do
  let bound := session.boundSource.getD request.source
  ensure (bound == request.source) (.sourceIdentityMismatch
    s!"Credential is bound to source {bound}, not {request.source}")
  ensure (session.allowedDatasets.any (·.contains request.datasetKey)) (.datasetAccessDenied
    s!"Source client is not allowed to ingest dataset {request.datasetKey}")
  ensure session.providerWork.isSome protocolRequired

/-- A call begins, or is refused before it takes a lock. -/
def begin (attemptId : Uuid) (session : Session) (request : IngressRequest) (s : State) :
    Except String State := do
  let phase := match checkSession session request with
    | .ok _ => Phase.called
    | .error e => .finished none (.error e)
  let calls ← need (s.calls.insert? ⟨attemptId, session, request, phase, []⟩)
    "ingestion_attempt_pkey"
  return { s with calls }

/-! ## Acceptance and the checks after it -/

/-- `acceptance` for the provider the source names; the owner row it may add for an
unknown provider is rolled back with the refusal. -/
def accept (utc : Instant) (session : Session) (request : IngressRequest) (s : State) :
    Except Rejection ProviderWork.Work := do
  let identity ← need session.providerWork protocolRequired
  let p ← need (providerNamed request.source) scopeDiffers
  (ProviderWork.acceptance (cfg.of p) utc identity request.datasetKey request.dataDate
    (s.work p)).mapError .providerWork

/-- `source.strip().lower()`. -/
def stripLower (source : String) : String :=
  let left := source.toList.dropWhile (·.isWhitespace)
  String.ofList ((left.reverse.dropWhile (·.isWhitespace)).reverse.map (·.toLower))

/-- The dataset accepts this contract from this source. -/
def checkContract (dataset : Dataset) (request : IngressRequest) : Except Rejection Unit := do
  ensure dataset.isActive (.datasetInactive s!"Dataset {request.datasetKey} is inactive")
  let declaration ← match dataset.declaration with
    | .ok (some declaration) => .ok declaration
    | .ok none => .error (.contractNotConfigured
        s!"Dataset {request.datasetKey} has no ingress contract declaration")
    | .error exc => .error (.contractNotConfigured
        s!"Dataset {request.datasetKey} has an invalid ingress contract declaration: {exc}")
  ensure (declaration.providerScope.contains (stripLower request.source)) (.datasetAccessDenied
    s!"Source {request.source} is not allowed for dataset {request.datasetKey}")
  ensure (declaration.schemaId == request.schemaId &&
      declaration.acceptedSchemaVersions.contains request.schemaVersion)
    (.schemaNotAllowed (s!"Dataset {request.datasetKey} does not accept " ++
      s!"{request.schemaId}.v{request.schemaVersion}"))
  ensure (declaration.defaultCurrency.isSome || !request.lacksCurrency) (.currencyRequired
    "currency is required for every market_eod row when the dataset has no default currency")

/-- The dataset's checks, then the part `validate_ingest_part` binds the request to. -/
def validate (part : Except (String × Nat) (Option Uuid)) (request : IngressRequest) (s : State) :
    Except Rejection (Option Uuid) := do
  let dataset ← need (s.datasets request.datasetKey)
    (.datasetNotFound s!"Dataset {request.datasetKey} not found")
  checkContract dataset request
  part.mapError fun e => .fullMarket e.1 e.2

/-- The policy's answer; a plan part is judged by its frozen members instead. -/
def judge (part : Option Uuid) (policy : PolicyResult) : Except Rejection PolicyResult := do
  let policy := if part.isSome then ⟨.pass, none⟩ else policy
  ensure (policy.outcome != .reject) (.deliveryPolicy policy)
  return policy

/-! ## A new delivery -/

/-- What ends the transaction that stores a delivery. -/
inductive Failure where
  | integrity (constraint : String)
  | raised (e : Rejection)
deriving DecidableEq, Repr

/-- The fresh ids of a delivery. -/
structure NewIds where
  runId : Uuid
  rawPayloadId : Uuid
  jobId : Uuid
  delivery : Normalization.DeliveryIds
deriving DecidableEq, Repr

/-- `store_raw_payload`. -/
def newRaw (now : Instant) (ids : NewIds) (c : Call) : RawPayload where
  rawPayloadId := ids.rawPayloadId
  sourceClientId := c.session.sourceClientId
  datasetKey := c.request.datasetKey
  source := c.request.source
  requestKey := c.request.requestKey
  idempotencyKey := c.request.idempotencyKey
  schemaId := some c.request.schemaId
  schemaVersion := some c.request.schemaVersion
  payloadSha256 := some (cfg.payloadSha256 c.request.payload)
  payload := c.request.payload
  fetchedAt := c.request.fetchedAt
  expireAt := now + cfg.rawRetention
  runId := ids.runId
  createdAt := now

/-- `create_ingestion_run`. -/
def newDelivery (ids : NewIds) (part : Option Uuid) (c : Call) : Delivery where
  runId := ids.runId
  datasetKey := c.request.datasetKey
  source := c.request.source
  sourceClientId := c.session.sourceClientId
  rawPayloadId := some ids.rawPayloadId
  deliveryPartId := part
  requestKey := c.request.requestKey
  schemaId := some c.request.schemaId
  schemaVersion := some c.request.schemaVersion
  batchDataDate := c.request.dataDate
  isRerun := false

/-- The issue a policy warning leaves. -/
def warning (runId : Uuid) (policy : PolicyResult) : Option ProviderWork.DQIssue :=
  if policy.outcome == .warn then
    some ⟨runId, .other "INGRESS_DELIVERY_POLICY_WARNING", false, "", none⟩
  else none

/-- The raw payload and its run, under their keys. -/
def storeRun (raw : RawPayload) (delivery : Delivery) (s : State) : Except String State := do
  ensure (!s.raws.rows.any (·.rawPayloadId == raw.rawPayloadId)) "market_payload_pkey"
  let raws ← need (s.raws.insert? raw) "uq_raw_payload_idempotency_scope"
  let deliveries ← need (s.deliveries.insert? delivery) "ingestion_run_pkey"
  let norm ← Normalization.createRun delivery.runId delivery.datasetKey s.norm
  return { s with raws, deliveries, norm }

/-- Everything a new delivery writes. -/
def Draft.store (p : Provider) (d : Draft) (s : State) : Except String State := do
  let s ← storeRun d.raw d.delivery s
  let receipts ← need ((s.work p).receipts.insert? d.receipt) "provider_work_receipt_pkey"
  let s ← s.commitWork p
    { s.work p with receipts, issues := (s.work p).issues ++ d.issue.toList }
  let norm ← Normalization.createNormalizationJob cfg.normalization d.now d.jobId d.ids
    d.delivery.runId none s.norm
  return { s with norm }

/-- `associate_receipt`, as the row it adds. -/
def newReceipt (utc : Instant) (p : Provider) (runId : Uuid) (c : Call) (work : ProviderWork.Work)
    (s : State) : Except Failure ProviderWork.Receipt := do
  let identity ← need c.session.providerWork (.raised protocolRequired)
  let db ← (ProviderWork.associateReceipt (cfg.of p) utc identity runId
    (cfg.payloadSha256 c.request.payload) (some c.request.members) work (s.work p)).mapError
      (.raised ∘ .providerWork)
  need (db.receipts.find? runId) (.integrity "provider_work_receipt_pkey")

/-- The rows a new delivery flushes: every constraint is checked against what is
committed. -/
def flush (now utc : Instant) (ids : NewIds) (c : Call) (work : ProviderWork.Work)
    (part : Option Uuid) (policy : PolicyResult) (s : State) :
    Except Failure (Provider × Draft) := do
  let p ← need (providerNamed c.request.source) (.raised scopeDiffers)
  let raw := newRaw cfg now ids c
  let delivery := newDelivery ids part c
  let _ ← (storeRun raw delivery s).mapError .integrity
  let receipt ← newReceipt cfg utc p ids.runId c work s
  let draft := ⟨raw, delivery, receipt, warning ids.runId policy, now, ids.jobId, ids.delivery⟩
  let _ ← (draft.store cfg p s).mapError .integrity
  return (p, draft)

/-! ## A stored delivery -/

/-- The digest a row was stored under. -/
def RawPayload.digest (raw : RawPayload) : String :=
  match raw.payloadSha256 with
  | some "" | none => cfg.payloadSha256 raw.payload
  | some digest => digest

/-- The stored delivery has this content, from this source and under this schema. -/
def RawPayload.sameContent (raw : RawPayload) (request : IngressRequest) : Bool :=
  raw.digest cfg == cfg.payloadSha256 request.payload && raw.source == request.source &&
  raw.schemaId == some request.schemaId && raw.schemaVersion == some request.schemaVersion

/-- `_accept_existing_contract_delivery`. -/
def acceptExisting (utc : Instant) (part : Option Uuid) (raw : RawPayload) (c : Call) (s : State) :
    Except Rejection Accepted := do
  ensure (raw.sameContent cfg c.request)
    (.payloadMismatch "idempotency_key is already associated with different contract content")
  ensure ((s.deliveries.find? raw.runId).all (·.deliveryPartId == part))
    (.payloadMismatch "idempotency_key is bound to another delivery part")
  let work ← accept cfg utc c.session c.request s
  let identity ← need c.session.providerWork protocolRequired
  let p ← need (providerNamed c.request.source) scopeDiffers
  let _ ← (ProviderWork.replayReceipt identity raw.runId (cfg.payloadSha256 c.request.payload) work
    (s.work p)).mapError .providerWork
  return ⟨raw.runId, (s.norm.runs.find? raw.runId).map (·.status), true⟩

/-! ## The machine -/

inductive Op where
  | begin (attemptId : Uuid) (session : Session) (request : IngressRequest)
  | accept (attemptId : Uuid) (utc : Instant)
  | validate (attemptId : Uuid) (part : Except (String × Nat) (Option Uuid))
  | lookup (attemptId : Uuid)
  | lockKey (attemptId : Uuid)
  | recheck (attemptId : Uuid)
  | judge (attemptId : Uuid) (policy : PolicyResult)
  | flush (attemptId : Uuid) (now utc : Instant) (ids : NewIds)
  | commit (attemptId : Uuid)
  | reread (attemptId : Uuid)
  | acceptExisting (attemptId : Uuid) (utc : Instant)
  /-- A database error, a timeout or a crash at any point. -/
  | abort (attemptId : Uuid)
  /-- The provider's other services. -/
  | work (p : Provider) (op : ProviderWork.Op)
  | rerun (p : Provider) (utc : Instant) (ids : Uuid × Uuid) (r : ProviderWork.Rerun)
      (delivery : Delivery)
  /-- Workers, the dispatcher and the reconcilers. -/
  | normalize (op : Normalization.Op)
  | setDatasets (datasets : DatasetKey → Option Dataset)

/-- The call an operation belongs to. -/
def Op.attempt : Op → Option Uuid
  | .begin id _ _ | .accept id _ | .validate id _ | .lookup id | .lockKey id | .recheck id
  | .judge id _ | .flush id _ _ _ | .commit id | .reread id | .acceptExisting id _ | .abort id =>
    some id
  | .work _ _ | .rerun _ _ _ _ _ | .normalize _ | .setDatasets _ => none

/-- The response ends the transaction, and its locks with it. -/
def State.finish (s : State) (c : Call) (part : Option Uuid) (r : Except Rejection Accepted) : State :=
  s.move c.attemptId (.finished part r) []

/-- A lock is taken, or the step waits. -/
def State.locking (s : State) (c : Call) (lock : LockScope) (next : State) : State :=
  if s.free cfg (some c.attemptId) lock then next else s

/-- The part of the plan the call is bound to, once it is known. -/
def Phase.part : Phase → Option Uuid
  | .called | .accepted _ => none
  | .validated _ part | .missed _ part | .keyed _ part | .unclaimed _ part | .passed _ part _
  | .flushed part _ _ | .rolledBack part | .found part _ | .finished part _ => part

def Phase.ended : Phase → Bool
  | .finished _ _ => true
  | _ => false

/-- One step of a call: what it does in its phase, or nothing. -/
def callStep (c : Call) (op : Op) (s : State) : State :=
  match op, c.phase with
  | .accept _ utc, .called =>
    let lock := .providerWork c.request.source
    s.locking cfg c lock <|
      match accept cfg utc c.session c.request s with
      | .ok work => s.move c.attemptId (.accepted work) (lock :: c.locks)
      | .error e => s.finish c none (.error e)
  | .validate _ answer, .accepted work =>
    match validate answer c.request s with
    | .ok part => s.move c.attemptId (.validated work part) c.locks
    | .error e => s.finish c none (.error e)
  | .lookup _, .validated work part =>
    match s.raws.find? c.scope with
    | some raw => s.move c.attemptId (.found part raw) c.locks
    | none => s.move c.attemptId (.missed work part) c.locks
  | .lockKey _, .missed work part =>
    let lock := .canonicalIdempotency c.scope
    s.locking cfg c lock <| s.move c.attemptId (.keyed work part) (lock :: c.locks)
  | .recheck _, .keyed work part =>
    match s.raws.find? c.scope with
    | some raw => s.move c.attemptId (.found part raw) c.locks
    | none => s.move c.attemptId (.unclaimed work part) c.locks
  | .judge _ policy, .unclaimed work part =>
    let lock := .feed c.request.datasetKey c.request.source c.request.schemaId
      c.request.schemaVersion
    s.locking cfg c lock <|
      match judge part policy with
      | .ok policy => s.move c.attemptId (.passed work part policy) (lock :: c.locks)
      | .error e => s.finish c part (.error e)
  | .flush _ now utc ids, .passed work part policy =>
    match flush cfg now utc ids c work part policy s with
    | .ok (p, draft) => s.move c.attemptId (.flushed part p draft) c.locks
    | .error (.integrity _) => s.move c.attemptId (.rolledBack part) []
    | .error (.raised e) => s.finish c part (.error e)
  | .commit _, .flushed part p draft =>
    match draft.store cfg p s with
    | .ok t => t.finish c part (.ok ⟨draft.raw.runId, some .queued, false⟩)
    | .error _ => s.move c.attemptId (.rolledBack part) []
  | .reread _, .rolledBack part =>
    match s.raws.find? c.scope with
    | some raw => s.move c.attemptId (.found part raw) []
    | none => s.finish c part (.error .unavailable)
  | .acceptExisting _ utc, .found part raw =>
    s.locking cfg c (.providerWork c.request.source) <|
      s.finish c part (acceptExisting cfg utc part raw c s)
  | .abort _, phase => if phase.ended then s else s.finish c phase.part (.error .unavailable)
  | _, _ => s

/-- The step of a call under its attempt id. -/
def onCall (id : Uuid) (op : Op) (s : State) : State :=
  match s.calls.find? id with
  | none => s
  | some c => callStep cfg c op s

/-- The operations that take the provider's lock. -/
def takesLock : ProviderWork.Op → Bool
  | .setRegistry _ | .addEvidence _ _ | .addIssue _ | .addNoData _ _ => false
  | _ => true

/-- A service of the provider's queue, other than a delivery or a rerun. -/
def workStep (p : Provider) (op : ProviderWork.Op) (s : State) : State :=
  match op with
  | .ingest .. | .rerunFromRaw .. => s
  | op =>
    if takesLock op && !s.free cfg none (.providerWork p.name) then s
    else settled s (s.commitWork p (ProviderWork.apply (cfg.of p) op (s.work p)))

/-- `rerun_from_raw`: a run of its own over a retained payload, with its own work and
receipt; `delivery` is the row it copies. -/
def rerun (p : Provider) (utc : Instant) (ids : Uuid × Uuid) (r : ProviderWork.Rerun)
    (delivery : Delivery) (s : State) : Except String State := do
  ensure (s.free cfg none (.providerWork p.name)) "pg_advisory_xact_lock"
  ensure (delivery.isRerun && delivery.runId == r.newRunId) "rerun"
  let deliveries ← need (s.deliveries.insert? delivery) "ingestion_run_pkey"
  let norm ← Normalization.createRun delivery.runId delivery.datasetKey s.norm
  let db ← (ProviderWork.rerunFromRaw (cfg.of p) utc ids r (s.work p)).mapError
    ProviderWork.Err.message
  { s with deliveries, norm }.commitWork p db

/-- The state an operation leaves. -/
def apply (op : Op) (s : State) : State :=
  match op with
  | .begin id session request => settled s (begin id session request s)
  | .accept id _ | .validate id _ | .lookup id | .lockKey id | .recheck id | .judge id _
  | .flush id _ _ _ | .commit id | .reread id | .acceptExisting id _ | .abort id =>
    onCall cfg id op s
  | .work p op => workStep cfg p op s
  | .rerun p utc ids r delivery => settled s (rerun cfg p utc ids r delivery s)
  | .normalize (.createRun _ _) => s
  | .normalize op => { s with norm := Normalization.apply cfg.normalization op s.norm }
  | .setDatasets datasets => { s with datasets }

/-- Any finite sequence of operations. -/
def Steps : State → State → Prop := StepsIf (apply cfg) fun _ _ => True

/-- Operations run from an empty database. -/
def ran (registry : Provider → ProviderWork.Registry) (ops : List Op) : State :=
  runAll (apply cfg) ops (State.init registry)

end FinDB.Ingestion
