import FinDB.Lib.Machine
import FinDB.ProviderWork.Admin
import FinDB.ProviderWork.Claim
import FinDB.ProviderWork.CompleteItem

/-! # The service as a machine

One operation is one request with its clock readings, and `apply` the state its
endpoint leaves. The environment's operations are the writes of other services:
runs, plans, controls and calendars may change to anything, while member
evidence, issues and no-data outcomes are only ever added. -/
namespace FinDB.ProviderWork
open FinDB.Lib

inductive Op where
  | enqueue (utc : Instant) (ids : Uuid × Uuid) (datasets : List DatasetKey) (r : EnqueueRequest)
  | claim (now utc : Instant) (token : Uuid) (r : ClaimRequest)
  | mutate (utc : Instant) (datasets : List DatasetKey) (identity : FenceIdentity) (action : Action)
  | ingest (utc : Instant) (d : DeliveryIdentity) (datasetKey : DatasetKey)
      (tradeDate : Option Date) (runId : Uuid) (payloadSha256 : String)
      (canonicalMembers : Option (List MemberKey)) (replay : Bool)
  | createRequest (utc : Instant) (requestId : Uuid) (ids : Nat → Uuid × Uuid × Uuid)
      (r : CreateRequest)
  | cancelRequest (utc : Instant) (requestId : Uuid) (actor : String)
  | expireRequests (now : Instant)
  | reconcileCancelledQueue (now utc : Instant)
  | claimNextItem (now utc : Instant) (datasets : List DatasetKey) (identity : Option FenceIdentity)
  | completeItem (utc : Instant) (r : CompleteItem)
  | repairApply (utc : Instant) (newId : Uuid) (repairIds : Nat → Uuid) (r : RepairApply)
  | calendarClosureApply (utc : Instant) (r : ClosureApply)
  | rerunFromRaw (utc : Instant) (ids : Uuid × Uuid) (r : Rerun)
  | attest (host : String)
  | setRegistry (registry : Registry)
  | addEvidence (runId : Uuid) (memberKey : MemberKey)
  | addIssue (issue : DQIssue)
  | addNoData (planId : Uuid) (memberKey : MemberKey)

variable (cfg : Config)

/-- The state an operation leaves. -/
def apply : Op → Db → Db
  | .enqueue utc ids datasets r, s => settled s (enqueueEndpoint cfg utc ids datasets r s)
  | .claim now utc token r, s => settled s (claimDb cfg now utc token r s)
  | .mutate utc datasets identity action, s => commit s (mutateDb cfg utc datasets identity action s)
  | .ingest utc d datasetKey tradeDate runId sha members replay, s =>
    settled s (ingest cfg utc d datasetKey tradeDate runId sha members replay s)
  | .createRequest utc requestId ids r, s => settled s (createRequest cfg utc requestId ids r s)
  | .cancelRequest utc requestId actor, s => settled s (cancelRequest utc requestId actor s)
  | .expireRequests now, s => expireRequests cfg now s
  | .reconcileCancelledQueue now utc, s => reconcileCancelledQueue cfg now utc s
  | .claimNextItem now utc datasets identity, s =>
    settled s (claimNextItem cfg now utc datasets identity s)
  | .completeItem utc r, s => commit s (completeEndpoint cfg utc r s)
  | .repairApply utc newId repairIds r, s => settled s (repairApply cfg utc newId repairIds r s)
  | .calendarClosureApply utc r, s => settled s (calendarClosureApply cfg utc r s)
  | .rerunFromRaw utc ids r, s => settled s (rerunFromRaw cfg utc ids r s)
  | .attest host, s => settled s (attest host s)
  | .setRegistry registry, s => { s with registry }
  | .addEvidence runId memberKey, s => { s with evidence := s.evidence ++ [(runId, memberKey)] }
  | .addIssue issue, s => { s with issues := s.issues ++ [issue] }
  | .addNoData planId memberKey, s => { s with noData := s.noData ++ [(planId, memberKey)] }

/-- Any finite sequence of operations. -/
def Steps : Db → Db → Prop := StepsIf (apply cfg) fun _ _ => True

/-- A state of some run over some registry. -/
def Reachable (s : Db) : Prop := ∃ registry, Steps cfg (Db.init registry) s

variable {cfg}

theorem Reachable.step {s : Db} (h : Reachable cfg s) (op : Op) : Reachable cfg (apply cfg op s) := by
  obtain ⟨registry, hs⟩ := h
  exact ⟨registry, hs.tail trivial⟩

theorem Reachable.steps {s t : Db} (h : Reachable cfg s) (hs : Steps cfg s t) :
    Reachable cfg t := by
  obtain ⟨registry, h0⟩ := h
  exact ⟨registry, h0.trans hs⟩

/-- The invariant rule for reachable states. -/
theorem Reachable.inv {I : Db → Prop} (h0 : ∀ registry, I (Db.init registry))
    (hs : ∀ s op, I s → I (apply cfg op s)) {s : Db} (h : Reachable cfg s) : I s := by
  obtain ⟨registry, hr⟩ := h
  exact hr.inv (fun s op hi _ => hs s op hi) (h0 registry)

/-! ## Runs on fixed inputs -/

/-- A deployment whose zones are all UTC and whose bodies are no deliveries. -/
def utcConfig (provider : Provider) : Config where
  provider := provider
  production := false
  fullMarketEnabled := false
  skipNonTradingDays := true
  clock :=
    { localTime := fun _ t => ⟨(t / day : Nat), t % day⟩
      combine := fun _ d t => d.toNat * day + t }
  ingress := fun _ => none
  sha256 := id

/-- A run row that has written everything it was given. -/
def cleanRun (provider : Provider) (datasetKey : DatasetKey) : Run where
  status := .completed
  source := provider
  datasetKey := datasetKey
  batchDataDate := none
  schemaId := none
  schemaVersion := none
  deliveryMode := none
  coverageStartDate := none
  coverageEndDate := none
  snapshotId := none
  dailyUpdateId := none
  sequence := none
  sequenceCount := none
  totalRecords := 0
  successRecords := 0
  failedRecords := 0
  workItemId := none
  rawPayloadId := none

/-- A registry that declares nothing. -/
def bareRegistry (provider : Provider) (datasetKey : DatasetKey) : Registry where
  runs := fun _ => cleanRun provider datasetKey
  rawPayloads := fun _ => none
  datasets := fun _ => none
  controls := fun _ => none
  decisions := fun _ _ _ => none
  plans := fun _ => none
  resolved := fun _ _ => false
  getPlan := fun _ _ => .error "plan not found"
  effectiveDays := fun _ _ _ => .ok []
  schedulerDatasets := fun _ => false
  publishedUniverse := fun _ _ => none

/-- A maintenance work with id 1 and first round 2, enqueued at time 0. -/
def enqueueMaintenance : Op :=
  .enqueue 0 (1, 2) ["us_equity_eod"] ⟨.maintenance "us_equity_eod" "symbols", .maintenance,
    "us_equity_eod", none, none, Scope.empty, none⟩

/-- A claim of one host for the whole dataset. -/
def hostClaim (recover : Bool) : ClaimRequest :=
  ⟨["us_equity_eod"], "host", false, recover, none, none, none⟩

/-- Operations run from an empty Twelve Data database. -/
def ranTwelveData (ops : List Op) : Db :=
  runAll (apply (utcConfig .twelveData)) ops (Db.init (bareRegistry .twelveData "us_equity_eod"))

/-- The same registry with a backfill dataset whose one trading day is 39. -/
def backfillRegistry : Registry :=
  { bareRegistry .twelveData "us_equity_eod" with
    datasets := fun _ => some ⟨true, none, none⟩
    effectiveDays := fun _ _ _ => .ok [⟨39, true, 0, "UTC"⟩]
    schedulerDatasets := fun _ => true }

/-- A request for day 39, made on day 40: item 11, work 1, round 2. -/
def createBackfill : Op :=
  .createRequest (40 * day) 10 (fun _ => (11, 1, 2)) ⟨"us_equity_eod", 39, 39, "request", none⟩

/-- A list of operations run from an empty database. -/
theorem reachable_runAll (registry : Registry) (ops : List Op) :
    Reachable cfg (runAll (apply cfg) ops (Db.init registry)) :=
  ⟨registry, runAll_steps ops _ (admitted_of_forall (fun _ _ => trivial) ops _)⟩

end FinDB.ProviderWork
