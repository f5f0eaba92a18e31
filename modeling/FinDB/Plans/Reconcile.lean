import FinDB.Plans.Rows

/-! # Reconciliation

A member's status is computed from the tables on every call: canonical rows and
evidence of the plan's successful runs first, then its outcome, then its mapping. -/
namespace FinDB.Plans
open FinDB.Lib

variable (s : State)

/-! ## Mappings and runs -/

/-- `effective_mappings`: the last repair that names a symbol. -/
def State.effectiveMapping (planId : Uuid) (key : MemberKey) : Option String :=
  (s.repairs.reverse.find? fun r =>
    r.planId == planId && r.memberKey == key && r.providerSymbol.any (· != "")).bind
      (·.providerSymbol)

/-- The mappings of the plan; only Shioaji plans are repaired. -/
def State.mapping (plan : Plan) (key : MemberKey) : Option String :=
  if plan.provider == .shioaji then s.effectiveMapping plan.planId key else none

/-- `run.delivery_part_id IN part_ids`, for a run that succeeded. -/
def State.delivers (plan : Plan) (run : IngestionRun) : Bool :=
  succeeded run.status &&
  run.deliveryPartId.any fun part => (s.membersOf plan.planId).any (·.partId == part)

/-! ## Sequenced snapshots -/

/-- The runs `list_sequenced_snapshot_groups` selects for one part and group. -/
def State.sequencedRuns (plan : Plan) (part : Uuid) (snapshotId dailyUpdateId : String) :
    List IngestionRun :=
  s.runs.rows.filter fun run =>
    run.datasetKey == plan.datasetKey && run.source == plan.provider &&
    run.payload.schema == .marketMinute && run.schemaVersion == 1 &&
    run.deliveryMode == some "sequenced_snapshot" && !run.isRerun &&
    run.batchDataDate == some plan.tradeDate && run.snapshotId == some snapshotId &&
    run.dailyUpdateId == some dailyUpdateId && run.sequence.isSome && run.sequenceCount.isSome &&
    run.deliveryPartId == some part

/-- `attempt_rank = 1`: no later attempt of the same sequence. -/
def latestAttempts (runs : List IngestionRun) : List IngestionRun :=
  runs.filter fun run => !runs.any fun later =>
    later.sequence == run.sequence &&
    (decide (run.createdAt < later.createdAt) ||
      (later.createdAt == run.createdAt && decide (run.runId < later.runId)))

/-- `SequencedSnapshotGroup.complete`, of the latest attempts. -/
def groupComplete (latest : List IngestionRun) : Bool :=
  let counts := latest.filterMap (·.sequenceCount)
  let sequences := latest.filterMap (·.sequence)
  match counts.min? with
  | none => false
  | some count =>
    latest.all (fun run => run.status == .completed && run.totalRecords == run.successRecords &&
      run.failedRecords == 0) &&
    sequences.min? == some 1 && sequences.max? == some count && latest.length == count &&
    sequences.dedup.length == count && counts.dedup.length == 1

/-- The run's snapshot group is complete, where the plan asks for one. -/
def State.coherent (plan : Plan) (run : IngestionRun) : Bool :=
  plan.schema != .marketMinute ||
  match run.deliveryPartId, run.snapshotId, run.dailyUpdateId with
  | some part, some snapshotId, some dailyUpdateId =>
    groupComplete (latestAttempts (s.sequencedRuns plan part snapshotId dailyUpdateId))
  | _, _, _ => false

/-! ## The delivered members -/

/-- A canonical row of the plan's day, last written by one of its runs. -/
def State.canonicalKey (plan : Plan) (key : MemberKey) : Bool :=
  s.canonical.rows.any fun c =>
    c.slot.schema == plan.schema && c.slot.tradeDate == plan.tradeDate && c.slot.memberKey == key &&
    (c.runId.bind s.runs.find?).any fun run => s.delivers plan run && s.coherent plan run

/-- Evidence one of its runs left. -/
def State.evidenceKey (plan : Plan) (key : MemberKey) : Bool :=
  s.evidence.any fun e =>
    e.2 == key && (s.runs.find? e.1).any fun run => s.delivers plan run && s.coherent plan run

/-- The symbol a manifest maps the key to. -/
def manifestSymbol (manifest : Option ProviderWork.Manifest) (key : MemberKey) : Option String :=
  match manifest.filter (·.contract == some ProviderWork.marketEodV2) with
  | none => none
  | some m =>
    (m.members.reverse.find? fun row => row.mappingStatus == some "mapped" && row.key == key).bind
      (·.sourceSymbol)

/-- The run and the work of one evidence row `_factset_historical_repairs` selects. -/
def State.repairWork (plan : Plan) (runId : Uuid) : Option ProviderWork.Work := do
  let run ← s.runs.find? runId
  let receipt ← s.receipts.find? runId
  let work ← s.works.find? receipt.workId
  if run.source == .factset && run.datasetKey == plan.datasetKey &&
      run.batchDataDate == some plan.tradeDate && run.payload.schema == .marketEod &&
      run.schemaVersion == 2 && succeeded run.status && work.kind == .historical &&
      work.datasetKey == plan.datasetKey && work.tradeDate == some plan.tradeDate
  then some work else none

/-- `_factset_historical_repairs`. -/
def State.repairedKey (plan : Plan) (key : MemberKey) : Bool :=
  plan.provider == .factset && plan.datasetKey == "hk_equity_eod" &&
  (s.membersOf plan.planId).any fun m =>
    m.memberKey == key && m.mappingStatus == .mapped &&
    s.evidence.any fun e => e.2 == key && (s.repairWork plan e.1).any fun work =>
      manifestSymbol work.manifest key == some m.providerSymbol

/-- `member_key in canonical_keys`. -/
def State.deliveredKey (plan : Plan) (key : MemberKey) : Bool :=
  s.canonicalKey plan key || s.evidenceKey plan key || s.repairedKey plan key

/-! ## The summary -/

inductive MemberState where
  | data | noData | missing | blocked
deriving DecidableEq, Repr

/-- A gap in the mapping that no repair has closed. -/
def State.mappingGap (plan : Plan) (m : Member) : Bool :=
  m.mappingStatus == .gap && (s.mapping plan m.memberKey).isNone

/-- The status of one member. -/
def State.memberState (plan : Plan) (m : Member) : MemberState :=
  if s.deliveredKey plan m.memberKey then .data
  else if m.outcome == some .noData then .noData
  else if (m.outcome == some .blocked &&
      !(m.outcomeReason == some .mappingGap && (s.mapping plan m.memberKey).isSome)) ||
      s.mappingGap plan m then .blocked
  else .missing

structure Gap where
  memberKey : MemberKey
  status : MemberState
  reason : Option OutcomeReason
deriving DecidableEq, Repr

/-- The reason a gap is listed with. -/
def State.gapReason (plan : Plan) (m : Member) : Option OutcomeReason :=
  let reason := m.outcomeReason.orElse fun _ =>
    if s.mappingGap plan m then some .mappingGap else none
  if reason == some .mappingGap && (s.mapping plan m.memberKey).isSome then none else reason

structure Summary where
  executionProfile : Profile
  expected : Nat
  data : Nat
  noData : Nat
  missing : Nat
  blocked : Nat
  deadlineAt : Instant
  isLate : Bool
  gaps : List Gap
deriving DecidableEq, Repr

/-- How many members have a status. -/
def State.countOf (plan : Plan) (st : MemberState) : Nat :=
  (s.membersOf plan.planId).countP (s.memberState plan · == st)

/-- `reconcile_plan`. -/
def State.reconcilePlan (plan : Plan) (now : Instant) (gapLimit : Option Nat) : Summary where
  executionProfile := plan.executionProfile
  expected := (s.membersOf plan.planId).length
  data := s.countOf plan .data
  noData := s.countOf plan .noData
  missing := s.countOf plan .missing
  blocked := s.countOf plan .blocked
  deadlineAt := plan.deadlineAt
  isLate := decide (plan.deadlineAt < now) &&
    decide (0 < s.countOf plan .missing + s.countOf plan .blocked)
  gaps :=
    let open_ := (s.membersOf plan.planId).filter fun m =>
      s.memberState plan m == .missing || s.memberState plan m == .blocked
    let listed := match gapLimit with
      | none => open_
      | some limit => open_.take limit
    listed.map fun m => ⟨m.memberKey, s.memberState plan m, s.gapReason plan m⟩

/-- The status `get_plan` answers. -/
def Summary.complete (r : Summary) : Bool := r.data + r.noData == r.expected

/-! ## The fetcher's copy -/

/-- A row of `full_work`. -/
structure FullWork where
  key : MemberKey
  complete : Bool
  leaseUntil : Nat
deriving DecidableEq, Repr

/-- A row of `full_plan` with its works. -/
structure FullPlan where
  complete : Bool
  late : Bool
  dirty : Bool
  works : List FullWork
deriving DecidableEq, Repr

/-- `evaluate`. -/
def evaluate (r : Summary) (p : FullPlan) : FullPlan :=
  let complete := r.expected == r.data + r.noData && r.missing == 0 && r.blocked == 0
  { complete, late := r.isLate, dirty := false
    works := if complete then p.works.map ({ · with complete := true, leaseUntil := 0 })
      else p.works }

end FinDB.Plans
