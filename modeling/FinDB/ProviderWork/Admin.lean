import FinDB.ProviderWork.Queue

/-! # Operator calls: member repair, calendar closure, rerun

The three calls that move a work without owning it. A repair may reopen a failed
or partial Shioaji work, a calendar closure retires one that never delivered,
and a rerun queues a work whose receipt exists from the start. -/
namespace FinDB.ProviderWork
open FinDB.Lib

/-! ## Shioaji member repair -/

structure RepairMapping where
  symbol : String
  exchange : String
  currency : String
  providerSymbol : String
deriving DecidableEq, Repr

structure RepairChange where
  memberKey : MemberKey
  mapping : Option RepairMapping
deriving DecidableEq, Repr

structure RepairApply where
  workId : Uuid
  requestId : String
  /-- The digest of the whole request body. -/
  requestSha256 : String
  members : List RepairChange
  /-- The preview computed now has the digest the caller expects. -/
  previewMatches : Bool
deriving DecidableEq, Repr

/-- `work_scope`: a frozen Shioaji daily work and its plan. -/
def repairScope (cfg : Config) (workId : Uuid) (s : Db) : Except Err (Work × Uuid × Plan) := do
  let work ← need
    ((s.works.find? workId).filter fun w =>
      cfg.provider == .shioaji && w.kind == .daily && w.planRef.isSome)
    (.fullMarket "Repair requires an existing Shioaji daily frozen work" 409)
  let planId ← need (match work.planRef with | some (.uuid id) => some id | _ => none)
    (.value "badly formed hexadecimal UUID string")
  let plan ← need
    ((s.registry.plans planId).filter fun p =>
      p.provider == cfg.provider && p.datasetKey == work.datasetKey &&
      some p.executionProfile == work.executionProfile && some p.tradeDate == work.tradeDate)
    (.fullMarket "Repair work differs from frozen plan" 409)
  return (work, planId, plan)

/-- `effective_mappings` has the member. -/
def Db.remapped (s : Db) (planId : Uuid) (memberKey : MemberKey) : Bool :=
  s.repairs.rows.any fun r =>
    r.planId == planId && r.memberKey == memberKey && truthy r.providerSymbol

/-- `has_prepared` of an inventory row: a receipt or a descriptor whose members
are unknown freezes every member. -/
def Db.memberPrepared (s : Db) (workId : Uuid) (memberKey : MemberKey) : Bool :=
  let prepared := s.preparedOf workId
  (s.receiptsOf workId).any (fun r => !(s.preparedKeys workId).contains r.memberKey) ||
  prepared.any (·.descriptor.canonicalMembers.isEmpty) ||
  prepared.any (·.descriptor.canonicalMembers.contains memberKey)

/-- The checks `preview` makes of one change. -/
def repairChecked (s : Db) (workId planId : Uuid) (plan : Plan) (change : RepairChange) :
    Except Err Unit := do
  let member ← need
    ((plan.members.find? (·.memberKey == change.memberKey)).filter fun m =>
      !s.memberPrepared workId m.memberKey && !s.registry.resolved planId m.memberKey)
    (.fullMarket "Repair member is outside unresolved, unprepared scope" 409)
  let gap := member.mappingStatus == "gap" && !s.remapped planId member.memberKey
  match change.mapping with
  | some m =>
    ensure (gap && m.symbol == member.symbol && m.exchange == member.exchange &&
        m.currency == member.currency)
      (.fullMarket "Mapping evidence differs from original gap identity" 422)
  | none => ensure (!gap) (.fullMarket "Mapping gap requires catalogue evidence" 422)

/-- The audited row of one change. -/
def addRepair (r : RepairApply) (planId : Uuid) (s : Db) (row : Uuid × RepairChange) :
    Except Err Db := do
  let repairs ← need
    (s.repairs.insert? ⟨row.1, r.workId, planId, r.requestId, r.requestSha256, row.2.memberKey,
      row.2.mapping.map (·.providerSymbol)⟩)
    (.integrity "shioaji_member_repair_pkey")
  return { s with repairs }

/-- `func.max(attempt_number)`, 0 without a row. -/
def lastNumber (s : Db) (workId : Uuid) : Nat :=
  ((s.attemptsOf workId).map (·.attemptNumber)).max?.getD 0

/-- A failed or partial work goes back to the queue with a new round. -/
def reopen (cfg : Config) (utc : Instant) (newId : Uuid) (work : Work) (s : Db) : Except Err Db := do
  let s' ← addAttempt newId work.workId (lastNumber s work.workId + 1) utc
    (!acquisitionOpen cfg utc s work true) none s
  return s'.setWork work.workId ({ · with state := .queued, completedAt := none })

/-- The work after its repair rows: only a failed or partial one is reopened. -/
def reopenEnded (cfg : Config) (utc : Instant) (newId : Uuid) (work : Work) (s : Db) :
    Except Err Db :=
  if work.state == .failed || work.state == .partly then reopen cfg utc newId work s else .ok s

/-- A repair request seen for the first time. -/
def repairNew (cfg : Config) (utc : Instant) (newId : Uuid) (repairIds : Nat → Uuid)
    (r : RepairApply) (work : Work) (planId : Uuid) (plan : Plan) (s : Db) : Except Err Db := do
  ensure (!s.ownedAttempt.any (·.workId == r.workId))
    (.fullMarket "Wait for the original work round to settle before approval" 409)
  ensure (work.state != .completed && work.state != .cancelled && work.state != .calendarClosed)
    (.fullMarket "Completed/cancelled work cannot be reopened" 409)
  r.members.forM (repairChecked s r.workId planId plan)
  ensure r.previewMatches (.fullMarket "Repair preview is stale" 409)
  let s ← (r.members.zipIdx.map fun (c, i) => (repairIds i, c)).foldlM (addRepair r planId) s
  reopenEnded cfg utc newId work s

/-- `shioaji_repair.apply`; `repairIds` are the ids of the new rows. -/
def repairApply (cfg : Config) (utc : Instant) (newId : Uuid) (repairIds : Nat → Uuid)
    (r : RepairApply) (s : Db) : Except Err Db := do
  let (work, planId, plan) ← repairScope cfg r.workId s
  let previous := s.repairs.rows.filter fun row =>
    row.workId == r.workId && row.requestId == r.requestId
  if previous.isEmpty then repairNew cfg utc newId repairIds r work planId plan s
  else do
    ensure (previous.length == r.members.length &&
        previous.all (·.requestSha256 == r.requestSha256))
      (.fullMarket "Repair request ID is already bound to different bytes" 409)
    return s

/-! ## Calendar closure -/

structure ClosureApply where
  workId : Uuid
  planId : Uuid
  requestId : String
  requestSha256 : String
  executionProfile : Profile
  /-- Blockers of the checks that read audit, alert, calendar and checkpoint rows. -/
  otherBlockers : List String
  previewMatches : Bool
deriving DecidableEq, Repr

/-- `require(condition, reason)`. -/
def blocker (condition : Bool) (reason : String) : List String := if condition then [] else [reason]

/-- The blockers of `evaluate` that read the rows of this model. -/
def closureBlockers (s : Db) (work : Work) (r : ClosureApply) : List String :=
  blocker (work.executionProfile == some r.executionProfile && work.planRef == some (.uuid r.planId))
    "request_scope" ++
  blocker ((work.state == .queued || work.state == .partly || work.state == .failed) &&
      (s.closures.find? work.workId).isNone) "work_not_unresolved" ++
  blocker ((s.registry.plans r.planId).any fun p => p.provider == .shioaji &&
      p.datasetKey == work.datasetKey && some p.tradeDate == work.tradeDate &&
      p.executionProfile == r.executionProfile) "plan_scope" ++
  blocker (work.manifest.bind (·.mode) == some "canonical") "manifest_not_canonical" ++
  blocker (work.decision s == some .skippedCalendar) "corrected_decision_required" ++
  blocker (s.owner.attemptId.isNone && !truthy s.owner.recoveryReason) "owner_not_idle" ++
  blocker ((s.preparedOf work.workId).isEmpty && (s.receiptsOf work.workId).isEmpty)
    "delivery_evidence_present" ++
  blocker ((s.attemptsOf work.workId).all fun a =>
      a.state != .opened && a.state != .recoveryBlocked) "attempt_active"

/-- `calendar_closure.apply`. -/
def calendarClosureApply (cfg : Config) (utc : Instant) (r : ClosureApply) (s : Db) :
    Except Err Db :=
  match s.closures.find? r.workId with
  | some previous => do
    ensure (previous.requestId == r.requestId && previous.requestSha256 == r.requestSha256)
      (.fullMarket "Calendar closure request differs from retained approval" 409)
    return s
  | none => do
    let work ← need (s.works.find? r.workId)
      (.fullMarket "Calendar closure work scope differs" 409)
    ensure (cfg.provider == .shioaji && work.kind == .daily && work.executionProfile.isSome &&
        work.planRef.isSome)
      (.fullMarket "Calendar closure requires a frozen Shioaji daily work" 409)
    ensure (work.planRef != some .text)
      (.fullMarket "Calendar closure plan identity is invalid" 409)
    ensure r.previewMatches (.fullMarket "Calendar closure preview is stale" 409)
    let blockers := closureBlockers s work r ++ r.otherBlockers
    ensure blockers.isEmpty
      (.fullMarket ("Calendar closure blocked: " ++ ",".intercalate blockers) 409)
    let closures ← need (s.closures.insert? ⟨r.workId, r.requestId, r.requestSha256⟩)
      (.integrity "provider_work_calendar_closure_pkey")
    return { s with closures }.setWork r.workId
      ({ · with state := .calendarClosed, completedAt := some utc })

/-! ## Rerun from retained raw -/

structure Rerun where
  newRunId : Uuid
  fromRunId : Uuid
  /-- The new run row; it starts queued. -/
  run : Run
  payloadSha256 : String
deriving DecidableEq, Repr

def retainedRawManifest : Manifest :=
  ⟨[⟨"retained_raw", none, none, none⟩], none, false, none, none, [], none⟩

/-- The enqueue of `rerun_from_raw`. -/
def Rerun.request (r : Rerun) (original : Run) : EnqueueRequest where
  stableKey := .rerun r.newRunId
  kind := .rerun
  datasetKey := r.run.datasetKey
  tradeDate := original.batchDataDate
  executionProfile := none
  scope := { Scope.empty with
    runId := some r.newRunId, rest := [("rerun_from_run_id", toString r.fromRunId)] }
  notBefore := none

/-- The run row `create_ingestion_run` inserts. -/
def Db.addRun (s : Db) (runId : Uuid) (run : Run) : Db :=
  { s with registry := { s.registry with
      runs := fun id => if id = runId then { run with status := .queued } else s.registry.runs id } }

/-- `rerun_from_raw`, once the retained payload is validated. -/
def rerunFromRaw (cfg : Config) (utc : Instant) (ids : Uuid × Uuid) (r : Rerun) (s : Db) :
    Except Err Db := do
  let dataset ← need (s.registry.datasets r.run.datasetKey)
    (.value "Dataset not found")
  ensure dataset.isActive (.value "Dataset is inactive")
  ensure (r.run.source == cfg.provider) (.value "Retained contract scope is invalid")
  ensure (s.workByKey (.rerun r.newRunId)).isNone (.integrity "ingestion_run_pkey")
  let (s', work) ← enqueue utc ids (r.request (s.run r.fromRunId)) (s.addRun r.newRunId r.run)
  let receipts ← need
    (s'.receipts.insert? ⟨r.newRunId, work.workId, ids.2, "retained_raw", r.payloadSha256⟩)
    (.integrity "provider_work_receipt_pkey")
  return { s' with receipts }.setWork work.workId
    ({ · with manifest := some retainedRawManifest })

/-! ## Cutover preflight -/

/-- The owner slot's part of `apply_cutover`: the attested host lock. -/
def attest (host : String) (s : Db) : Except Err Db := do
  ensure s.owner.attemptId.isNone (conflict "provider work is already active")
  return { s with owner := { s.owner with hostLockIdentity := some host, recoveryReason := none } }

end FinDB.ProviderWork
