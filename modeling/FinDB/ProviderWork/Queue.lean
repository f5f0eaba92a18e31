import FinDB.ProviderWork.Acquisition

/-! # Enqueue, manifests, preparations and receipts

The service functions that add to a work before it is settled. Each is a plain
service: when it raises, its endpoint rolls back. -/
namespace FinDB.ProviderWork
open FinDB.Lib

/-! ## Enqueue -/

/-- The arguments of `enqueue`. -/
structure EnqueueRequest where
  stableKey : StableKey
  kind : Kind
  datasetKey : DatasetKey
  tradeDate : Option Date
  executionProfile : Option Profile
  scope : Scope
  notBefore : Option Stamp
deriving DecidableEq, Repr

/-- `(kind, dataset_key, trade_date, execution_profile)` agree. -/
def EnqueueRequest.sameIdentity (r : EnqueueRequest) (work : Work) : Bool :=
  work.kind == r.kind && work.datasetKey == r.datasetKey && work.tradeDate == r.tradeDate &&
  work.executionProfile == r.executionProfile

/-- `db.add(ProviderWorkAttempt(..))`: a new row at the tail of the queue. -/
def addAttempt (attemptId workId : Uuid) (attemptNumber : Nat) (notBefore : Instant)
    (drainOnly : Bool) (proof : Option Proof) (s : Db) : Except Err Db := do
  ensure (!(s.attemptsOf workId).any (·.attemptNumber == attemptNumber))
    (.integrity "uq_provider_work_attempt_round")
  let attempts ← need
    (s.attempts.insert?
      { attemptId, queueOrder := s.queueSeq + 1, workId, attemptNumber, state := .queued, notBefore,
        drainOnly, generation := none, token := none, startedAt := none, settledAt := none,
        outcome := none, failureCode := none, proof })
    (.integrity "provider_work_attempt_pkey")
  return { s with attempts, queueSeq := s.queueSeq + 1 }

/-- The row `enqueue` creates. -/
def EnqueueRequest.work (r : EnqueueRequest) (workId : Uuid) : Work where
  workId := workId
  stableKey := r.stableKey
  kind := r.kind
  datasetKey := r.datasetKey
  tradeDate := r.tradeDate
  executionProfile := r.executionProfile
  scope := r.scope
  manifest := none
  state := .queued
  completedAt := none

/-- `enqueue`: idempotent on the stable key. `ids` are the fresh work and attempt ids. -/
def enqueue (utc : Instant) (ids : Uuid × Uuid) (r : EnqueueRequest) (s : Db) :
    Except Err (Db × Work) := do
  ensure (r.notBefore.all (·.aware)) (conflict "not_before must be timezone-aware")
  match s.workByKey r.stableKey with
  | some existing =>
    ensure (r.sameIdentity existing &&
        (existing.scope.legacyId.isSome || existing.scope == r.scope))
      (conflict "stable work identity is already bound to another scope")
    return (s, existing)
  | none =>
    let works ← need (s.works.insert? (r.work ids.1)) (.integrity "provider_work_pkey")
    let notBefore := (r.notBefore.map (·.at_)).getD utc
    let s' ← addAttempt ids.2 ids.1 1 notBefore false none { s with works }
    return (s', r.work ids.1)

/-- The close a provider publishes: TAIFEX and FactSet wait for their reports. -/
def publishedClose (cfg : Config) (close : Nat) : Nat :=
  match cfg.provider with
  | .taifex => max close (timeOfDay 17 0)
  | .factset => max close (timeOfDay 18 30)
  | _ => close

/-- `daily_readiness`: the first enqueue freezes the published close. -/
def dailyReadiness (cfg : Config) (r : EnqueueRequest) (s : Db) : Except Err EnqueueRequest :=
  match s.workByKey r.stableKey with
  | some existing =>
    match existing.scope.calendarSnapshot with
    | some snapshot => .ok { r with scope := { r.scope with calendarSnapshot := some snapshot } }
    | none => .ok r
  | none => do
    let _ ← need (s.registry.datasets r.datasetKey) (conflict "unknown provider work dataset")
    let date ← need r.tradeDate (.value "trade_date")
    let days ← (s.registry.effectiveDays r.datasetKey date date).mapError Err.value
    let snapshot ← need days.head? (.value "list index out of range")
    let ready := cfg.clock.combine snapshot.timezone date (publishedClose cfg snapshot.regularClose)
    ensure (r.notBefore.all (·.aware)) (conflict "not_before must be timezone-aware")
    let notBefore := max ready ((r.notBefore.map (·.at_)).getD ready)
    return { r with
      notBefore := some ⟨notBefore, true⟩
      scope := { r.scope with calendarSnapshot := some snapshot } }

/-- The values the endpoint enqueues: a daily body is made ready first. -/
def readyRequest (cfg : Config) (r : EnqueueRequest) (s : Db) : Except Err EnqueueRequest :=
  if r.kind == .daily then dailyReadiness cfg r s else .ok r

/-- `PROVIDER_DATASET_SCOPE`. -/
def providerDatasetScope : Provider → List DatasetKey
  | .twelveData => ["us_equity_eod"]
  | .finlab => ["tw_equity_eod", "tw_etf_eod"]
  | .shioaji => ["tw_equity_minute", "tw_etf_minute"]
  | .taifex => ["tw_futures_eod"]
  | .factset => ["hk_equity_eod"]

/-- `scope(db)`: the datasets of the credential, or 403. -/
def sourceScope (cfg : Config) (datasets : List DatasetKey) : Except Err Unit :=
  ensure (!datasets.isEmpty && datasets.all ((providerDatasetScope cfg.provider).contains ·))
    (.http 403 "Source provider work scope denied")

/-- The stable key an enqueue of this kind must carry. -/
def EnqueueRequest.identityChecked (r : EnqueueRequest) : Bool :=
  match r.kind with
  | .maintenance =>
    r.tradeDate.isNone && r.executionProfile.isNone &&
    match r.stableKey with
    | .maintenance dataset _ => dataset == r.datasetKey
    | _ => false
  | .daily =>
    match r.executionProfile, r.tradeDate with
    | some profile, some date => r.stableKey == .daily profile r.datasetKey date
    | _, _ => false
  | .historical | .rerun => true

/-- `POST /provider-work/enqueue`. -/
def enqueueEndpoint (cfg : Config) (utc : Instant) (ids : Uuid × Uuid) (datasets : List DatasetKey)
    (r : EnqueueRequest) (s : Db) : Except Err Db := do
  sourceScope cfg datasets
  ensure (datasets.contains r.datasetKey) (.http 403 "Source dataset scope denied")
  ensure (r.kind != .rerun) (.http 409 "retained raw reruns must use the run rerun endpoint")
  ensure r.identityChecked (.http 422 (if r.kind == .maintenance then
    "maintenance stable work identity differs" else "daily stable work identity differs"))
  ensure (r.kind != .historical || (s.workByKey r.stableKey).any (·.kind == .historical))
    (.http 409 "historical work requires an approved backfill request")
  let r ← readyRequest cfg r s
  let (s', _) ← enqueue utc ids r s
  return s'

/-! ## Heartbeat and close -/

/-- `heartbeat`. -/
def heartbeat (cfg : Config) (utc : Instant) (identity : FenceIdentity)
    (acquisitionNotBefore : Option Stamp) (s : Db) : Except Err Db := do
  let _ ← fence cfg utc identity false s
  ensure (acquisitionNotBefore.all (·.aware))
    (conflict "provider account cooldown requires UTC-aware time")
  let floor := match acquisitionNotBefore with
    | none => s.owner.acquisitionNotBefore
    | some t => some (max (s.owner.acquisitionNotBefore.getD t.at_) t.at_)
  return { s with owner := { s.owner with
    acquisitionNotBefore := floor
    heartbeatAt := some utc
    expiresAt := some (utc + heartbeatTtl) } }

/-- `close`: acquisition of an open round ends. -/
def close (cfg : Config) (utc : Instant) (identity : FenceIdentity) (s : Db) : Except Err Db := do
  let (_, attempt) ← fence cfg utc identity false s
  return if attempt.state == .opened then
      s.setAttempt attempt.attemptId ({ · with state := .closed })
    else s

/-! ## The expected scope -/

/-- Equality of two lists read as sets. -/
def sameSet {α : Type} [BEq α] (xs ys : List α) : Bool :=
  xs.all (ys.contains ·) && ys.all (xs.contains ·)

theorem sameSet_iff {α : Type} [BEq α] [LawfulBEq α] {xs ys : List α} :
    sameSet xs ys = true ↔ ∀ k, k ∈ xs ↔ k ∈ ys := by
  simp only [sameSet, Bool.and_eq_true, List.all_eq_true, List.contains_iff_mem]
  exact ⟨fun h k => ⟨h.1 k, h.2 k⟩, fun h => ⟨fun k => (h k).mp, fun k => (h k).mpr⟩⟩

/-- Keys non-empty, at most 200 long and unique. -/
def Manifest.uniqueKeys (m : Manifest) : Bool :=
  m.keys.all (fun k => k != "" && decide (k.length ≤ 200)) && decide m.keys.Nodup

/-- The frozen contract may only be EOD v2, where the dataset declares it. -/
def contractInScope (cfg : Config) (s : Db) (work : Work) (contract : SchemaRef) : Bool :=
  contract == marketEodV2 && (work.kind == .daily || work.kind == .historical) &&
  ((s.registry.datasets work.datasetKey).bind (·.declaration)).any fun d =>
    d.schemaId == "market_eod" && d.acceptedVersions.contains 2 &&
    d.providerScope.contains cfg.provider

/-- The plan `manifest["plan_id"]` names. -/
def Manifest.plan (m : Manifest) (s : Db) : Option Plan :=
  match m.planId with
  | some (.uuid id) => s.registry.plans id
  | _ => none

/-- The daily branch of `freeze_manifest`. -/
def freezeDaily (cfg : Config) (s : Db) (work : Work) (m : Manifest) : Except Err Unit :=
  if m.calendarSkip then
    ensure (work.decision s == some .skippedCalendar && m.keys == ["calendar_skip"])
      (conflict "calendar skip lacks frozen Source decision")
  else do
    let plan ← need (m.plan s) (conflict "daily manifest differs from frozen plan scope")
    ensure (plan.provider == cfg.provider && plan.datasetKey == work.datasetKey &&
        some plan.tradeDate == work.tradeDate && some plan.executionProfile == work.executionProfile &&
        sameSet m.keys (plan.members.map (·.memberKey)))
      (conflict "daily manifest differs from frozen plan scope")
    ensure (m.contract.isNone || m.members.all fun row =>
        (plan.members.find? (·.memberKey == row.key)).any fun frozen =>
          row.mappingStatus == some frozen.mappingStatus && row.sourceSymbol == frozen.providerSymbol)
      (conflict "EOD manifest mapping differs from the frozen plan")

/-- The historical branch: the manifest is the request's frozen cohort. -/
def freezeHistorical (s : Db) (work : Work) (m : Manifest) : Except Err Unit := do
  let snapshot ← need
    (((work.scope.itemId.bind s.items.find?).bind fun item =>
        s.requests.find? item.requestId).bind (·.universeSnapshot))
    (conflict "EOD historical manifest lacks the request's frozen cohort")
  ensure (m.universeReleaseId == some snapshot.releaseId)
    (conflict "EOD historical manifest lacks the request's frozen cohort")
  ensure (sameSet (m.members.map fun r => (r.key, r.mappingStatus, r.sourceSymbol))
      (snapshot.members.map fun r => (r.memberKey, some r.mappingStatus, r.providerSymbol)))
    (conflict "EOD historical manifest differs from the frozen cohort")

/-- The branches of `freeze_manifest` by kind. -/
def freezeScope (cfg : Config) (s : Db) (work : Work) (m : Manifest) : Except Err Unit :=
  match work.kind with
  | .daily => freezeDaily cfg s work m
  | .historical => if m.contract.isSome then freezeHistorical s work m else .ok ()
  | .maintenance | .rerun => .ok ()

/-- `freeze_manifest` for a work that has none yet. -/
def freezeNew (cfg : Config) (utc : Instant) (identity : FenceIdentity)
    (manifest : Option Manifest) (work : Work) (s : Db) : Except Err Db := do
  ensure work.manifest.isNone (conflict "expected scope is already frozen")
  let _ ← fence cfg utc identity true s
  ensure (work.kind != .daily || acquisitionOpen cfg utc s work true)
    (.suspended "daily acquisition is stopped")
  let m ← need
    (manifest.filter fun m => decide (1 ≤ m.members.length ∧ m.members.length ≤ 100000))
    (conflict "frozen expected member manifest is required")
  ensure m.uniqueKeys (conflict "expected member identities must be unique")
  ensure (m.contract.all (contractInScope cfg s work))
    (conflict "frozen EOD v2 contract is outside the dataset scope")
  freezeScope cfg s work m
  return s.setWork work.workId ({ · with manifest := some m })

/-- `freeze_manifest`; `none` is a document without a list of member records. -/
def freezeManifest (cfg : Config) (utc : Instant) (identity : FenceIdentity)
    (manifest : Option Manifest) (s : Db) : Except Err Db := do
  let (work, _) ← fence cfg utc identity false s
  if manifest.isSome && work.manifest == manifest then return s
  else freezeNew cfg utc identity manifest work s

/-! ## Preparations -/

inductive Stage where
  | intent | confirm
deriving DecidableEq, Repr

/-- The frozen member keys. -/
def Work.expectedKeys (work : Work) : List MemberKey := (work.manifest.map (·.keys)).getD []

/-- The descriptor of a body, before it is bound to a job. -/
def Ingress.descriptor (cfg : Config) (body : String) (request : Ingress) (jobKey : Option String) :
    Descriptor :=
  ⟨cfg.sha256 body, request.payloadSha256, request.members, jobKey, false⟩

/-- `previous` was bound for the same bytes, and for the same job when one is named. -/
def Descriptor.sameDelivery (previous d : Descriptor) (jobKey : Option String) : Bool :=
  previous.bodySha256 == d.bodySha256 && previous.payloadSha256 == d.payloadSha256 &&
  previous.canonicalMembers == d.canonicalMembers && (jobKey.isNone || previous.jobKey == jobKey)

/-- A receipt that accepted exactly this payload under this key. -/
def Db.acceptedAs (s : Db) (workId : Uuid) (deliveryKey payloadSha256 : String) : Bool :=
  (s.receiptsOf workId).any fun r =>
    r.memberKey == deliveryKey && r.payloadSha256 == payloadSha256

/-- A key no descriptor has yet: the intent branch of `register_prepared`. -/
def storePrepared (cfg : Config) (utc : Instant) (body : String) (stage : Stage)
    (jobKey : Option String) (request : Ingress) (work : Work) (attempt : Attempt) (s : Db) :
    Except Err Db := do
  ensure (stage == .intent) (conflict "durable preparation intent is required before local save")
  ensure (jobKey.all fun k => !(s.preparedOf work.workId).any (·.descriptor.jobKey == some k))
    (conflict "prepared job identity is already bound")
  ensure (attempt.state == .opened && !attempt.drainOnly)
    (conflict "closed work cannot create a preparation intent")
  -- imported receipts may still bind their original bytes after a stop
  ensure (acquisitionOpen cfg utc s work false ||
      s.acceptedAs work.workId request.idempotencyKey request.payloadSha256)
    (conflict "new preparation is stopped")
  let prepared ← need
    (s.prepared.insert?
      ⟨work.workId, request.idempotencyKey, request.descriptor cfg body jobKey, body⟩)
    (.integrity "provider_work_prepared_pkey")
  return { s with prepared }

/-- `confirm_prepared`: the descriptor's only mutable field. -/
def confirmPrepared (workId : Uuid) (deliveryKey : String) (s : Db) : Db :=
  { s with prepared := s.prepared.modify (workId, deliveryKey) fun p =>
      { p with descriptor := { p.descriptor with confirmed := true } } }

/-- `register_prepared`. -/
def registerPrepared (cfg : Config) (utc : Instant) (identity : FenceIdentity) (body : String)
    (stage : Stage) (jobKey : Option String) (s : Db) : Except Err Db := do
  let (work, attempt) ← fence cfg utc identity false s
  let request ← need (cfg.ingress body) (conflict "prepared contract is invalid")
  ensure (request.source == some cfg.provider && request.datasetKey == work.datasetKey &&
      request.dataDate == work.tradeDate && !request.members.isEmpty &&
      request.members.all (work.expectedKeys.contains ·))
    (conflict "prepared delivery is outside frozen expected scope")
  match s.descriptor work.workId request.idempotencyKey with
  | some previous =>
    ensure (previous.sameDelivery (request.descriptor cfg body jobKey) jobKey)
      (conflict "prepared delivery descriptor cannot change")
    return if stage == .confirm && !previous.confirmed then
        confirmPrepared work.workId request.idempotencyKey s
      else s
  | none => storePrepared cfg utc body stage jobKey request work attempt s

/-! ## Receipts -/

/-- `db.info["provider_work"]` and the body digest beside it. -/
structure DeliveryIdentity where
  fence : FenceIdentity
  memberKey : String
  bodySha256 : Option String
deriving DecidableEq, Repr

/-- `descriptor and descriptor["body_sha256"] == ..`. -/
def Db.retainedBytes (s : Db) (workId : Uuid) (d : DeliveryIdentity) : Bool :=
  (s.descriptor workId d.memberKey).any fun p => some p.bodySha256 == d.bodySha256

/-- `acceptance`: the work a delivery belongs to. -/
def acceptance (cfg : Config) (utc : Instant) (d : DeliveryIdentity) (datasetKey : DatasetKey)
    (tradeDate : Option Date) (s : Db) : Except Err Work := do
  let work ← need
    ((s.works.find? d.fence.workId).filter fun w =>
      w.datasetKey == datasetKey && w.tradeDate == tradeDate)
    (conflict "provider work delivery scope differs")
  ensure (work.state != .calendarClosed) (conflict "calendar-closed work cannot accept delivery")
  ensure ((s.descriptor work.workId d.memberKey).isNone || s.retainedBytes work.workId d)
    (conflict "prepared delivery bytes differ from retained descriptor")
  ensure (work.state.terminal || acquisitionOpen cfg utc s work true ||
      (s.descriptor work.workId d.memberKey).isSome)
    (conflict "stopped work only accepts previously registered prepared bytes")
  return work

/-- The delivery is inside the frozen scope of the work. -/
def Work.acceptsMember (work : Work) (memberKey payloadSha256 : String)
    (canonicalMembers : Option (List MemberKey)) : Except Err Unit :=
  if work.manifest.bind (·.mode) == some "canonical" then
    ensure (canonicalMembers.any fun members =>
        !members.isEmpty && members.all (work.expectedKeys.contains ·))
      (conflict "delivery is outside frozen canonical scope")
  else
    ensure (((work.manifest.map (·.members)).getD []).any fun row =>
        row.key == memberKey &&
        (!truthy row.payloadSha256 || row.payloadSha256 == some payloadSha256))
      (conflict "delivery is outside frozen expected manifest")

/-- `associate_receipt(.., replay=False)`. -/
def associateReceipt (cfg : Config) (utc : Instant) (d : DeliveryIdentity) (runId : Uuid)
    (payloadSha256 : String) (canonicalMembers : Option (List MemberKey)) (work : Work) (s : Db) :
    Except Err Db := do
  let (_, attempt) ← fence cfg utc { d.fence with workId := work.workId } false s
  ensure (work.state != .calendarClosed) (conflict "calendar-closed work cannot accept delivery")
  ensure ((attempt.state == .opened && !attempt.drainOnly && work.state == .running) ||
      s.retainedBytes work.workId d)
    (conflict "provider work acceptance is closed")
  work.acceptsMember d.memberKey payloadSha256 canonicalMembers
  let receipts ← need
    (s.receipts.insert? ⟨runId, work.workId, attempt.attemptId, d.memberKey, payloadSha256⟩)
    (.integrity "provider_work_receipt_pkey")
  return { s with receipts }

/-- `associate_receipt(.., replay=True)`: a lookup. -/
def replayReceipt (d : DeliveryIdentity) (runId : Uuid) (payloadSha256 : String) (work : Work)
    (s : Db) : Except Err Db := do
  ensure ((s.receipts.find? runId).any fun r =>
      r.workId == work.workId && r.memberKey == d.memberKey && r.payloadSha256 == payloadSha256)
    (conflict "receipt replay belongs to another stable work")
  return s

/-- A delivery as ingestion runs it: acceptance, then the receipt. -/
def ingest (cfg : Config) (utc : Instant) (d : DeliveryIdentity) (datasetKey : DatasetKey)
    (tradeDate : Option Date) (runId : Uuid) (payloadSha256 : String)
    (canonicalMembers : Option (List MemberKey)) (replay : Bool) (s : Db) : Except Err Db := do
  let work ← acceptance cfg utc d datasetKey tradeDate s
  if replay then replayReceipt d runId payloadSha256 work s
  else associateReceipt cfg utc d runId payloadSha256 canonicalMembers work s

end FinDB.ProviderWork
