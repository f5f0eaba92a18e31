import FinDB.Canonical.Upserts
import FinDB.Lib.Raise
import FinDB.Lib.Table
import FinDB.ProviderWork.Rows

/-! # Plans, runs, evidence and canonical slots

The tables `reconcile_plan` reads. A canonical row is known by its slot and by what
the upsert guard compares; its prices belong to `FinDB.Canonical`. Instruments are
known by their unique key. -/
namespace FinDB.Plans
open FinDB.Lib

/-! ## Payload rows -/

inductive Schema where
  | marketEod | marketMinute | futuresEod
deriving DecidableEq, Repr

abbrev Session := Canonical.Session

def sessionName : Session → String
  | .regular => "regular"
  | .afterHours => "after_hours"

/-- `f"{product}|{contract}|{session}"`. -/
def futuresKey (productCode contractCode : String) (session : Session) : MemberKey :=
  productCode ++ "|" ++ contractCode ++ "|" ++ sessionName session

/-- A row of a validated payload, without its values. -/
inductive PayloadRow where
  | eod (symbol : String) (sourceSymbol : Option String) (tradeDate : Date)
  | minute (symbol : String) (sourceSymbol : Option String) (tradeDate : Date)
      (barStartTime : Instant)
  | futures (productCode contractCode : String) (tradeDate : Date) (session : Session)
deriving DecidableEq, Repr

namespace PayloadRow

def schema : PayloadRow → Schema
  | .eod .. => .marketEod
  | .minute .. => .marketMinute
  | .futures .. => .futuresEod

/-- The key acceptance checks against the part. -/
def memberKey : PayloadRow → MemberKey
  | .eod symbol _ _ | .minute symbol _ _ _ => symbol
  | .futures product contract _ session => futuresKey product contract session

def tradeDate : PayloadRow → Date
  | .eod _ _ date | .minute _ _ date _ | .futures _ _ date _ => date

def sourceSymbol : PayloadRow → Option String
  | .eod _ source _ | .minute _ source _ _ => source
  | .futures .. => none

end PayloadRow

/-- The data of one payload: every row is of its schema. -/
structure Payload where
  schema : Schema
  rows : List PayloadRow
  typed : ∀ r ∈ rows, r.schema = schema

/-! ## Canonical slots -/

/-- `uq_instrument`. -/
structure Instrument where
  assetClass : String
  market : String
  symbol : String
deriving DecidableEq, Repr

/-- The unique key of a canonical row, in the table its schema writes. -/
inductive Slot where
  | eod (instrument : Instrument) (tradeDate : Date)
  | minute (instrument : Instrument) (tradeDate : Date) (barStartTime : Instant)
  | futures (instrument : Instrument) (contractCode : String) (tradeDate : Date)
      (session : Session)
deriving DecidableEq, Repr

namespace Slot

def schema : Slot → Schema
  | .eod .. => .marketEod
  | .minute .. => .marketMinute
  | .futures .. => .futuresEod

def tradeDate : Slot → Date
  | .eod _ date | .minute _ date _ | .futures _ _ date _ => date

/-- The member a canonical row is counted for: by its instrument's symbol. -/
def memberKey : Slot → MemberKey
  | .eod i _ | .minute i _ _ => i.symbol
  | .futures i contract _ session => futuresKey i.symbol contract session

end Slot

structure CanonicalRow where
  slot : Slot
  row : Canonical.Row Unit Unit
deriving DecidableEq, Repr

/-- The run that wrote the row last. -/
def CanonicalRow.runId (c : CanonicalRow) : Option Uuid := c.row.written.runId

/-- `instrument_identifiers`, the rows a normalizer looks up and adds. -/
structure Identifier where
  idType : String
  idValue : String
  instrument : Instrument
deriving DecidableEq, Repr

def Identifier.key (i : Identifier) : String × String := (i.idType, i.idValue)

/-! ## Runs -/

/-- `IN ('completed', 'completed_with_errors')`. -/
def succeeded : RunStatus → Bool
  | .completed | .completedWithErrors => true
  | _ => false

structure IngestionRun where
  runId : Uuid
  datasetKey : DatasetKey
  source : Provider
  deliveryPartId : Option Uuid
  schemaVersion : Nat
  batchDataDate : Option Date
  deliveryMode : Option String
  snapshotId : Option String
  dailyUpdateId : Option String
  sequence : Option Nat
  sequenceCount : Option Nat
  isRerun : Bool
  status : RunStatus
  totalRecords : Nat
  successRecords : Nat
  failedRecords : Nat
  createdAt : Instant
  /-- The retained raw payload. -/
  payload : Payload

/-! ## Plans -/

structure Plan where
  planId : Uuid
  datasetKey : DatasetKey
  provider : Provider
  tradeDate : Date
  executionProfile : Profile
  deadlineAt : Instant
deriving DecidableEq, Repr

/-- The table `reconcile_plan` reads for the dataset. -/
def Plan.schema (plan : Plan) : Schema :=
  if plan.datasetKey == "tw_futures_eod" then .futuresEod
  else if plan.datasetKey == "tw_equity_minute" || plan.datasetKey == "tw_etf_minute" then
    .marketMinute
  else .marketEod

/-- `daily_delivery_part`; its work item is `fp1:` and the id. -/
structure Part where
  partId : Uuid
  planId : Uuid
  partNumber : Nat
deriving DecidableEq, Repr

inductive MappingStatus where
  | mapped | gap
deriving DecidableEq, Repr

inductive Outcome where
  | noData | blocked
deriving DecidableEq, Repr

inductive OutcomeReason where
  | halted | noTrade | mappingGap | rateLimited | sourceError | emptyResponse
deriving DecidableEq, Repr

structure OutcomeEvidence where
  url : String
  sha256 : String
  observedAt : Instant
  sourceSymbol : String
  tradeDate : Date
  session : Option Session
  sourceStatus : String
  sourceExcerpt : String
deriving DecidableEq, Repr

/-- An entry of `outcome_history`. -/
structure OutcomeEntry where
  outcome : Outcome
  reason : OutcomeReason
  evidence : Option OutcomeEvidence
  recordedAt : Instant
deriving DecidableEq, Repr

/-- `daily_delivery_member`. -/
structure Member where
  planId : Uuid
  partId : Uuid
  memberKey : MemberKey
  providerSymbol : String
  session : Option Session
  mappingStatus : MappingStatus
  outcome : Option Outcome
  outcomeReason : Option OutcomeReason
  outcomeEvidence : Option OutcomeEvidence
  outcomeHistory : List OutcomeEntry
  outcomeAt : Option Instant
deriving DecidableEq, Repr

/-- `uq_daily_delivery_member_key`. -/
def Member.key (m : Member) : Uuid × MemberKey := (m.planId, m.memberKey)

/-- `shioaji_member_repair` of this environment. -/
structure MemberRepair where
  planId : Uuid
  memberKey : MemberKey
  providerSymbol : Option String
deriving DecidableEq, Repr

/-! ## The database -/

structure State where
  plans : Table Plan.planId
  parts : Table Part.partId
  members : Table Member.key
  runs : Table IngestionRun.runId
  /-- `delivery_member_evidence`. -/
  evidence : List (Uuid × MemberKey)
  canonical : Table CanonicalRow.slot
  identifiers : Table Identifier.key
  /-- In the order they were applied. -/
  repairs : List MemberRepair
  /-- The FactSet works and receipts, for its historical repairs. -/
  works : Table ProviderWork.Work.workId
  receipts : Table ProviderWork.Receipt.runId

def State.init : State where
  plans := Table.empty
  parts := Table.empty
  members := Table.empty
  runs := Table.empty
  evidence := []
  canonical := Table.empty
  identifiers := Table.empty
  repairs := []
  works := Table.empty
  receipts := Table.empty

/-- The members of a plan. -/
def State.membersOf (s : State) (planId : Uuid) : List Member :=
  s.members.rows.filter (·.planId == planId)

theorem State.mem_membersOf {s : State} {planId : Uuid} {m : Member} :
    m ∈ s.membersOf planId ↔ m ∈ s.members ∧ m.planId = planId := by
  simp [State.membersOf, Table.mem_def]

/-- The keys frozen in a part. -/
def State.expected (s : State) (partId : Uuid) : List MemberKey :=
  (s.members.rows.filter (·.partId == partId)).map (·.memberKey)

theorem State.mem_expected {s : State} {partId : Uuid} {key : MemberKey} :
    key ∈ s.expected partId ↔ ∃ m ∈ s.members, m.partId = partId ∧ m.memberKey = key := by
  simp [State.expected, Table.mem_def, and_assoc]

end FinDB.Plans
