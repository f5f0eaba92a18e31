import FinDB.Plans.Reconcile
import FinDB.ProviderWork.Queue

/-! # What a transaction writes

A transaction is known by the rows it writes, in order. Each service is the list
of its writes, decided on the state it reads. -/
namespace FinDB.Plans
open FinDB.Lib

/-! ## One write -/

structure RunCounts where
  total : Nat
  success : Nat
  failed : Nat
deriving DecidableEq, Repr

inductive Write where
  | addPlan (plan : Plan)
  | addPart (part : Part)
  | addMember (m : Member)
  | addRun (run : IngestionRun)
  | setRun (runId : Uuid) (status : RunStatus) (counts : Option RunCounts)
  | addReceipt (receipt : ProviderWork.Receipt)
  | putCanonical (c : CanonicalRow)
  | addIdentifier (i : Identifier)
  | addEvidence (runId : Uuid) (key : MemberKey)
  | setOutcome (planId : Uuid) (key : MemberKey) (entry : OutcomeEntry)
  | addRepair (r : MemberRepair)
  | addWork (work : ProviderWork.Work)
  | setManifest (workId : Uuid) (manifest : ProviderWork.Manifest)

def IngestionRun.set (run : IngestionRun) (status : RunStatus) (counts : Option RunCounts) :
    IngestionRun :=
  match counts with
  | none => { run with status }
  | some c => { run with
      status, totalRecords := c.total, successRecords := c.success, failedRecords := c.failed }

@[simp] theorem IngestionRun.set_runId (run : IngestionRun) (status : RunStatus)
    (counts : Option RunCounts) : (run.set status counts).runId = run.runId := by
  cases counts <;> rfl

/-- The outcome columns, and one more entry in the history. -/
def Member.record (m : Member) (entry : OutcomeEntry) : Member :=
  { m with
    outcome := some entry.outcome, outcomeReason := some entry.reason
    outcomeEvidence := entry.evidence, outcomeHistory := m.outcomeHistory ++ [entry]
    outcomeAt := some entry.recordedAt }

theorem manifest_workId (manifest : ProviderWork.Manifest) (w : ProviderWork.Work) :
    ({ w with manifest := some manifest } : ProviderWork.Work).workId = w.workId := rfl

def State.write (s : State) : Write → State
  | .addPlan plan => { s with plans := s.plans.insertNew plan }
  | .addPart part => { s with parts := s.parts.insertNew part }
  | .addMember m => { s with members := s.members.insertNew m }
  | .addRun run => { s with runs := s.runs.insertNew run }
  | .setRun runId status counts =>
    { s with runs := s.runs.modify runId (·.set status counts) fun _ => IngestionRun.set_runId .. }
  | .addReceipt receipt => { s with receipts := s.receipts.insertNew receipt }
  | .putCanonical c => { s with canonical := s.canonical.upsert c fun old => { old with row := c.row } }
  | .addIdentifier i => { s with identifiers := s.identifiers.insertNew i }
  | .addEvidence runId key => { s with evidence := s.evidence.insert (runId, key) }
  | .setOutcome planId key entry => { s with members := s.members.modify (planId, key) (·.record entry) }
  | .addRepair r => { s with repairs := s.repairs ++ [r] }
  | .addWork work => { s with works := s.works.insertNew work }
  | .setManifest workId manifest =>
    { s with
      works := s.works.modify workId ({ · with manifest := some manifest })
        (manifest_workId manifest) }

def State.writeAll (s : State) (ws : List Write) : State := ws.foldl State.write s

/-! ## Requests -/

/-- `FullMarketError`, or what the database raises. -/
inductive Err where
  | fullMarket (message : String) (statusCode : Nat)
  | missing (what : String)
  | integrity (constraint : String)
  | providerWork (e : ProviderWork.Err)
deriving DecidableEq, Repr

/-- The text functions of the language, and the scope a dataset declares. -/
structure Config where
  strip : String → String
  upper : String → String
  /-- `(market, asset_class)` of the dataset's defaults. -/
  scope : DatasetKey → String × String

/-! ## Plans -/

/-- A member of the release, in key order. -/
structure FrozenMember where
  memberKey : MemberKey
  providerSymbol : String
  session : Option Session
  mappingStatus : MappingStatus
deriving DecidableEq, Repr

/-- The frozen members of a part. -/
def partSize : Nat := 50

def newMember (planId : Uuid) (partId : Nat → Uuid) (i : Nat) (m : FrozenMember) : Member where
  planId
  partId := partId (i / partSize)
  memberKey := m.memberKey
  providerSymbol := m.providerSymbol
  session := m.session
  mappingStatus := m.mappingStatus
  outcome := none
  outcomeReason := none
  outcomeEvidence := none
  outcomeHistory := []
  outcomeAt := none

/-- `create_plan` of an admitted request: a plan that exists is returned as it is. -/
def createPlan (s : State) (plan : Plan) (partId : Nat → Uuid) (frozen : List FrozenMember) :
    Except Err (List Write) := do
  let existing := s.plans.rows.any fun p =>
    p.datasetKey == plan.datasetKey && p.provider == plan.provider &&
    p.tradeDate == plan.tradeDate && p.executionProfile == plan.executionProfile
  if existing then return []
  else do
    ensure (!frozen.isEmpty) (.fullMarket "Published universe has no plan members" 409)
    let partIds := (List.range ((frozen.length + partSize - 1) / partSize)).map partId
    ensure ((s.plans.find? plan.planId).isNone && decide partIds.Nodup &&
        partIds.all fun id => (s.parts.find? id).isNone) (.integrity "daily_delivery_plan")
    ensure (decide (frozen.map (·.memberKey)).Nodup) (.integrity "uq_universe_member_key")
    return .addPlan plan ::
      partIds.mapIdx (fun i id => .addPart ⟨id, plan.planId, i + 1⟩) ++
      (frozen.mapIdx (newMember plan.planId partId)).map .addMember

/-! ## Deliveries -/

/-- What the work item of a request names; the historical checks are an answer. -/
inductive WorkItem where
  | none (required : Bool)
  | historical (answer : Except Err Unit)
  | part (id : Uuid)

/-- The work a delivery is claimed under, which the provider queue has let through. -/
structure Claimed where
  workId : Uuid
  attemptId : Uuid
  memberKey : String
  payloadSha256 : String
deriving DecidableEq, Repr

/-- A validated request, as the run it would be, without its part. `elapsed` and
`currency` are what the session's hours and the row currencies answer. -/
structure Delivery where
  run : IngestionRun
  workItem : WorkItem
  targetDataDate : Option Date
  elapsed : Except Err Unit
  currency : Except Err Unit
  claimed : Option Claimed

/-- `mappings.get(key, provider_symbol)`. -/
def State.symbolOf (s : State) (plan : Plan) (m : Member) : String :=
  (s.mapping plan m.memberKey).getD m.providerSymbol

/-- One row against its frozen member. -/
def checkRow (s : State) (plan : Plan) (partId : Uuid) (row : PayloadRow) : Except Err Unit := do
  let m ← need (s.members.rows.find? fun m => m.partId == partId && m.memberKey == row.memberKey)
    (.missing "universe member")
  ensure (m.mappingStatus == .mapped || (s.mapping plan m.memberKey).isSome)
    (.fullMarket "Mapping-gap members cannot be submitted as data" 409)
  ensure (row.sourceSymbol.all (· == s.symbolOf plan m))
    (.fullMarket "Payload provider symbol differs from frozen universe" 409)

/-- `validate_ingest_part`. -/
def validateIngestPart (s : State) (d : Delivery) : Except Err (Option Uuid) :=
  match d.workItem with
  | .historical answer => do
    answer
    return none
  | .none required => do
    ensure (!required) (.fullMarket "This feed requires a frozen full-market work item" 409)
    return none
  | .part id => do
    let part ← need (s.parts.find? id) (.fullMarket "Unknown full-market work item" 409)
    let plan ← need (s.plans.find? part.planId) (.fullMarket "Work item scope mismatch" 409)
    ensure (plan.datasetKey == d.run.datasetKey && plan.provider == d.run.source)
      (.fullMarket "Work item scope mismatch" 409)
    d.elapsed
    ensure (d.run.batchDataDate == some plan.tradeDate && d.targetDataDate == some plan.tradeDate)
      (.fullMarket "Work item trade date mismatch" 409)
    ensure (d.run.payload.rows.all fun row => (s.expected part.partId).contains row.memberKey)
      (.fullMarket "Payload contains members outside the declared plan part" 409)
    d.run.payload.rows.forM (checkRow s plan part.partId)
    d.currency
    ensure (d.run.payload.rows.all fun row => row.tradeDate == plan.tradeDate)
      (.fullMarket "Payload row trade date differs from frozen plan" 409)
    return some part.partId

/-- The run as `create_ingestion_run` stores it. -/
def newRun (d : Delivery) (part : Option Uuid) : IngestionRun :=
  { d.run with
    deliveryPartId := part, isRerun := false, status := .queued
    totalRecords := 0, successRecords := 0, failedRecords := 0 }

/-- `associate_receipt`, where the frozen scope of the work takes the delivery. -/
def newReceipt (s : State) (d : Delivery) : Except Err (List Write) :=
  match d.claimed with
  | none => .ok []
  | some c => do
    let work ← need (s.works.find? c.workId) (.missing "provider work")
    (work.acceptsMember c.memberKey c.payloadSha256
      (some (d.run.payload.rows.map (·.memberKey)))).mapError .providerWork
    return [.addReceipt ⟨d.run.runId, c.workId, c.attemptId, c.memberKey, c.payloadSha256⟩]

/-- A new delivery: its run, and its receipt. -/
def deliver (s : State) (d : Delivery) : Except Err (List Write) := do
  let part ← validateIngestPart s d
  ensure (s.runs.find? d.run.runId).isNone (.integrity "ingestion_run_pkey")
  let receipt ← newReceipt s d
  return .addRun (newRun d part) :: receipt

/-- `rerun_from_raw`: the same part and payload. The batch's columns are copied when
they are bounded. -/
def rerun (s : State) (runId newRunId : Uuid) (bounded : Bool) (now : Instant) :
    Except Err (List Write) := do
  let original ← need (s.runs.find? runId) (.missing "Raw payload not found for run")
  ensure (s.runs.find? newRunId).isNone (.integrity "ingestion_run_pkey")
  let copy := { original with
    runId := newRunId, isRerun := true, status := .queued
    totalRecords := 0, successRecords := 0, failedRecords := 0, createdAt := now }
  if bounded then return [.addRun copy]
  else return [.addRun { copy with
    batchDataDate := none, deliveryMode := none, snapshotId := none, dailyUpdateId := none
    sequence := none, sequenceCount := none }]

/-! ## Normalization -/

/-- What the data-quality checks say of a row, before and after its instrument is known. -/
inductive Verdict where
  | blocked | delisted | write
deriving DecidableEq, Repr

/-- A normalizer at work: the writes so far, and its counters. -/
structure Progress where
  state : State
  writes : List Write
  success : Nat
  failed : Nat

def Progress.put (p : Progress) (w : Write) : Progress :=
  { p with state := p.state.write w, writes := p.writes ++ [w] }

/-- The identifier of a row, if it has one. -/
def identifierOf (cfg : Config) (source : Provider) (row : PayloadRow) : Option (String × String) :=
  (row.sourceSymbol.map cfg.strip).bind fun value =>
    if value.isEmpty then none else some (source.name, value)

/-- The instrument a row names by itself. -/
def ownInstrument (cfg : Config) (dataset : DatasetKey) (row : PayloadRow) : Instrument :=
  match row with
  | .eod symbol .. | .minute symbol .. =>
    ⟨(cfg.scope dataset).2, (cfg.scope dataset).1, cfg.upper (cfg.strip symbol)⟩
  | .futures product .. => ⟨"future", "TW", product⟩

/-- `resolve_instrument`: an identifier that is known wins over the symbol. -/
def resolveInstrument (cfg : Config) (run : IngestionRun) (row : PayloadRow) (s : State) :
    Instrument × Option Identifier :=
  let own := ownInstrument cfg run.datasetKey row
  match identifierOf cfg run.source row with
  | none => (own, none)
  | some id =>
    match (s.identifiers.find? id).map (·.instrument) with
    | some known =>
      if known.assetClass == own.assetClass && known.market == own.market then (known, none)
      else (own, some ⟨id.1, id.2, own⟩)
    | none => (own, some ⟨id.1, id.2, own⟩)

def slotOf (instrument : Instrument) : PayloadRow → Slot
  | .eod _ _ date => .eod instrument date
  | .minute _ _ date start => .minute instrument date start
  | .futures _ contract date session => .futures instrument contract date session

/-- One row: blocked, or resolved and written when the incoming source wins. -/
def normalizeRow (cfg : Config) (run : IngestionRun) (ncfg : Canonical.NormalizerConfig)
    (now : Instant) (p : Progress) (row : PayloadRow × Verdict) : Progress :=
  if row.2 = .blocked then { p with failed := p.failed + 1 }
  else
    let resolved := resolveInstrument cfg run row.1 p.state
    let p := resolved.2.elim p fun i => p.put (.addIdentifier i)
    if row.2 = .delisted then { p with failed := p.failed + 1 }
    else
      let slot := slotOf resolved.1 row.1
      let ctx : Canonical.WriteContext := ⟨ncfg, some run.source.name, run.runId, now⟩
      let r := Canonical.upsert ((p.state.canonical.find? slot).map (·.row)) ⟨(), now, ctx.written ()⟩
      if r.2 then { p.put (.putCanonical ⟨slot, r.1⟩) with success := p.success + 1 } else p

/-- `map_fields`: a row without a symbol is no record. -/
def mapFields (cfg : Config) (payload : Payload) : List PayloadRow :=
  payload.rows.filter fun row =>
    match row with
    | .eod symbol .. | .minute symbol .. => !(cfg.upper (cfg.strip symbol)).isEmpty
    | .futures .. => true

/-- The records of a payload, each with its verdict. -/
def judged (cfg : Config) (run : IngestionRun) (verdict : Nat → Verdict) :
    List (PayloadRow × Verdict) :=
  (mapFields cfg run.payload).mapIdx fun i row => (row, verdict i)

/-- The members `record_delivery_evidence` inserts for a run that succeeded. -/
def State.deliveryEvidence (s : State) (run : IngestionRun) : List MemberKey :=
  let written := (s.canonical.rows.filter fun c =>
    c.slot.schema == run.payload.schema && c.runId == some run.runId).map (·.slot.memberKey)
  match run.deliveryPartId with
  | some part => written.filter fun key => (s.expected part).contains key
  | none => written

/-- A normalization that ends: the rows, the status, the evidence. -/
def complete (cfg : Config) (s : State) (runId : Uuid) (ncfg : Canonical.NormalizerConfig)
    (now : Instant) (verdict : Nat → Verdict) : Except Err (List Write) := do
  let run ← need (s.runs.find? runId) (.missing "run")
  let p := (judged cfg run verdict).foldl (normalizeRow cfg run ncfg now) ⟨s, [], 0, 0⟩
  let status := if p.failed = 0 then RunStatus.completed else .completedWithErrors
  let counts : RunCounts := ⟨(mapFields cfg run.payload).length, p.success, p.failed⟩
  return p.writes ++ [.setRun runId status (some counts)] ++
    (p.state.deliveryEvidence run).map (.addEvidence runId)

/-- A worker starts a run that is not terminal. -/
def start (s : State) (runId : Uuid) : Except Err (List Write) := do
  let run ← need (s.runs.find? runId) (.missing "run")
  if run.status.terminal then return [] else return [.setRun runId .processing none]

/-- `_schedule_retry`. -/
def scheduleRetry (s : State) (runId : Uuid) (exhausted : Bool) : Except Err (List Write) := do
  let _ ← need (s.runs.find? runId) (.missing "run")
  return [.setRun runId (if exhausted then .failed else .retrying) none]

/-- `_mark_permanent_failure`. -/
def markPermanentFailure (s : State) (runId : Uuid) : Except Err (List Write) := do
  let _ ← need (s.runs.find? runId) (.missing "run")
  return [.setRun runId .failed none]

/-! ## Outcomes and repairs -/

/-- `DeliveryOutcomeRequest`; `elapsed` is what the session's hours answer. -/
structure OutcomeRequest where
  planId : Uuid
  partId : Uuid
  memberKey : MemberKey
  outcome : Outcome
  reason : OutcomeReason
  evidence : Option OutcomeEvidence
  elapsed : Except Err Unit

/-- What is checked of the evidence of a no-data outcome. -/
def checkEvidence (s : State) (plan : Plan) (m : Member) (body : OutcomeRequest) : Except Err Unit :=
  match body.outcome, body.evidence with
  | .noData, some e => do
    ensure (e.sourceSymbol == s.symbolOf plan m && e.tradeDate == plan.tradeDate &&
        e.session == m.session)
      (.fullMarket "No-data evidence does not match provider symbol/date/session" 422)
    body.elapsed
  | _, _ => return ()

/-- `record_outcome`. -/
def recordOutcome (s : State) (body : OutcomeRequest) (now : Instant) : Except Err (List Write) := do
  let plan ← need (s.plans.find? body.planId) (.fullMarket "Delivery plan not found" 404)
  let m ← need ((s.members.find? (body.planId, body.memberKey)).filter (·.partId == body.partId))
    (.fullMarket "Outcome member is outside the frozen plan part" 409)
  ensure (body.outcome != .noData || m.mappingStatus == .mapped ||
      (s.mapping plan m.memberKey).isSome)
    (.fullMarket "Mapping gaps cannot be classified as no_data" 422)
  checkEvidence s plan m body
  if m.outcome = some body.outcome ∧ m.outcomeReason = some body.reason ∧
      m.outcomeEvidence = body.evidence then return []
  else do
    ensure (m.outcome != some .noData)
      (.fullMarket "No-data evidence is immutable; resolve through canonical data" 409)
    return [.setOutcome body.planId body.memberKey ⟨body.outcome, body.reason, body.evidence, now⟩]

/-- A member of `RepairApplyRequest`; `prepared` is whether a delivery of it is prepared. -/
structure RepairChange where
  memberKey : MemberKey
  providerSymbol : Option String
  prepared : Bool
deriving DecidableEq, Repr

/-- `preview` of one change. -/
def checkRepair (s : State) (plan : Plan) (change : RepairChange) : Except Err Unit := do
  let m ← need (s.members.find? (plan.planId, change.memberKey))
    (.fullMarket "Repair member is outside unresolved, unprepared scope" 409)
  ensure (!change.prepared && (s.memberState plan m == .missing || s.memberState plan m == .blocked))
    (.fullMarket "Repair member is outside unresolved, unprepared scope" 409)
  if change.providerSymbol.isSome then
    ensure (s.mappingGap plan m)
      (.fullMarket "Mapping evidence differs from original gap identity" 422)
  else ensure (!s.mappingGap plan m) (.fullMarket "Mapping gap requires catalogue evidence" 422)

/-- `shioaji_repair.apply` of a request that is not bound yet. -/
def applyRepair (s : State) (planId : Uuid) (changes : List RepairChange) :
    Except Err (List Write) := do
  let plan ← need ((s.plans.find? planId).filter (·.provider == .shioaji))
    (.fullMarket "Repair work differs from frozen plan" 409)
  changes.forM (checkRepair s plan)
  return changes.map fun c => .addRepair ⟨planId, c.memberKey, c.providerSymbol⟩

/-! ## The provider queue -/

/-- `freeze_manifest`. -/
def freezeManifest (s : State) (workId : Uuid) (manifest : ProviderWork.Manifest) :
    Except Err (List Write) := do
  let work ← need (s.works.find? workId) (.missing "provider work")
  if work.manifest = some manifest then return []
  else do
    ensure work.manifest.isNone
      (.providerWork (ProviderWork.conflict "expected scope is already frozen"))
    return [.setManifest workId manifest]

/-! ## The operations -/

inductive Op where
  | createPlan (plan : Plan) (partId : Nat → Uuid) (frozen : List FrozenMember)
  | deliver (d : Delivery)
  | replay (runId : Uuid)
  | rerun (runId newRunId : Uuid) (bounded : Bool) (now : Instant)
  | start (runId : Uuid)
  | scheduleRetry (runId : Uuid) (exhausted : Bool)
  | markPermanentFailure (runId : Uuid)
  | complete (runId : Uuid) (ncfg : Canonical.NormalizerConfig) (now : Instant)
      (verdict : Nat → Verdict)
  | recordOutcome (body : OutcomeRequest) (now : Instant)
  | applyRepair (planId : Uuid) (changes : List RepairChange)
  | enqueueWork (work : ProviderWork.Work)
  | freezeManifest (workId : Uuid) (manifest : ProviderWork.Manifest)

/-- What an operation writes. An exact replay of a delivery writes none of these tables. -/
def Op.writes (cfg : Config) (s : State) : Op → Except Err (List Write)
  | .createPlan plan partId frozen => Plans.createPlan s plan partId frozen
  | .deliver d => Plans.deliver s d
  | .replay runId => do
    let _ ← need (s.runs.find? runId) (.missing "run")
    return []
  | .rerun runId newRunId bounded now => Plans.rerun s runId newRunId bounded now
  | .start runId => Plans.start s runId
  | .scheduleRetry runId exhausted => Plans.scheduleRetry s runId exhausted
  | .markPermanentFailure runId => Plans.markPermanentFailure s runId
  | .complete runId ncfg now verdict => Plans.complete cfg s runId ncfg now verdict
  | .recordOutcome body now => Plans.recordOutcome s body now
  | .applyRepair planId changes => Plans.applyRepair s planId changes
  | .enqueueWork work => .ok [.addWork work]
  | .freezeManifest workId manifest => Plans.freezeManifest s workId manifest

/-- An operation by itself: its writes, or nothing when it raises. -/
def step (cfg : Config) (op : Op) (s : State) : State :=
  match op.writes cfg s with
  | .ok ws => s.writeAll ws
  | .error _ => s

end FinDB.Plans
