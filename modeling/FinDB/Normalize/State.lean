import FinDB.Canonical.Upserts
import FinDB.Lib.Effect
import FinDB.Lib.Extremes
import FinDB.Normalize.Mapping

/-! # What a normalizer works on

A call of `process` runs in a session: it writes to a transaction that is committed or
rolled back as a whole. The tables a run is judged by are columns of their own; `rest`
are all others. Instruments, calendar, partitions, corporate actions and the services
behind a status are programs on `rest`. -/
namespace FinDB.Normalize
open FinDB.Lib

/-! ## Exceptions -/

inductive Exn where
  | sqlalchemy
  | eodPartitionUnavailable (year : Int)
  | other (type_ message : String)
deriving DecidableEq, Repr

/-- `f"{type(exc).__name__}: {description}"`, or the name alone. -/
def Exn.describe (lang : Language) : Exn → String
  | .sqlalchemy => "SQLAlchemyError"
  | .eodPartitionUnavailable year =>
    s!"EODPartitionUnavailableError: migration-owned EOD partition is unavailable for year {year}"
  | .other type_ message =>
    if (lang.strip message).isEmpty then type_ else s!"{type_}: {lang.strip message}"

/-! ## Rows -/

/-- `instrument_stats`. -/
structure InstrumentStats where
  firstTradeDate : Option Date
  latestTradeDate : Option Date
  latestPrice : Option Canonical.Decimal
  eodFirstDate : Option Date
  eodLatestDate : Option Date
  eodLatestClose : Option Canonical.Decimal
  futuresFirstDate : Option Date
  futuresLatestDate : Option Date
  minuteFirstBarAt : Option Instant
  minuteLatestBarAt : Option Instant
  minuteLatestClose : Option Canonical.Decimal
  updatedAt : Instant
deriving DecidableEq, Repr

/-- A row whose columns are null. -/
def InstrumentStats.blank (now : Instant) : InstrumentStats :=
  ⟨none, none, none, none, none, none, none, none, none, none, none, now⟩

/-- `dq_issue`. -/
structure StoredIssue where
  runId : Uuid
  instrumentId : Option Uuid
  issue : DQIssueRecord
deriving DecidableEq

structure RunRow where
  status : RunStatus
  totalRecords : Nat
  successRecords : Nat
  failedRecords : Nat
  errorMessage : Option String
  startedAt : Option Instant
  completedAt : Option Instant
deriving DecidableEq, Repr

structure Db (ρ : Type) where
  tables : Canonical.Tables
  stats : Uuid → Option InstrumentStats
  dqIssues : List StoredIssue
  runs : Uuid → Option RunRow
  rest : ρ

/-- What the normalizers read of an instrument. -/
structure Instrument where
  instrumentId : Uuid
  symbol : String
  status : String
  delistedDate : Option CivilDate
deriving DecidableEq

structure FuturesEODRow where
  productCode : String
  contractCode : String
  contractMonth : String
  tradeDate : CivilDate
  session : Canonical.Session
  open_ : Option Dec
  high : Option Dec
  low : Option Dec
  close : Option Dec
  volume : Option Int
  settlementPrice : Option Dec
  openInterest : Option Int
deriving DecidableEq

/-! ## Results -/

/-- The counter a record goes to. -/
inductive Bucket where
  | success | failed | rejected
deriving DecidableEq, Repr

structure NormalizeResult where
  totalRecords : Nat
  successRecords : Nat
  failedRecords : Nat
  precedenceRejectedRecords : Nat
  dqIssues : List DQIssueRecord

def NormalizeResult.empty : NormalizeResult := ⟨0, 0, 0, 0, []⟩

def NormalizeResult.counts (r : NormalizeResult) : Bucket → Nat
  | .success => r.successRecords
  | .failed => r.failedRecords
  | .rejected => r.precedenceRejectedRecords

def NormalizeResult.count (r : NormalizeResult) : Bucket → NormalizeResult
  | .success => { r with successRecords := r.successRecords + 1 }
  | .failed => { r with failedRecords := r.failedRecords + 1 }
  | .rejected => { r with precedenceRejectedRecords := r.precedenceRejectedRecords + 1 }

/-- A session, the result and the variables of the loop. -/
structure Work (ρ ν : Type) where
  committed : Db ρ
  db : Db ρ
  result : NormalizeResult
  processedRecords : Nat
  locals : ν

abbrev Norm (ρ ν : Type) := EStateM Exn (Work ρ ν)

/-! ## Services -/

/-- What a normalizer takes from the code around it. A statement that the database does
not accept raises an `SQLAlchemyError`. -/
structure Services (ρ : Type) where
  lang : Language
  mapping : MappingConfig
  control : Canonical.NormalizerConfig
  now : Instant
  /-- What the arithmetic of the daily checks raises on a record. -/
  decimalContext : MappedRecord → Option Exn
  resolveInstrument : RecordHead → EStateM Exn ρ Instrument
  getOrCreateInstrument : String → EStateM Exn ρ Instrument
  getOrCreateTradingDay : CivilDate → Option String → EStateM Exn ρ Unit
  checkCorporateActionContinuity : Canonical.Tables → Uuid → MappedRecord →
    EStateM Exn ρ (Option DQIssueRecord)
  eodPartitionAttached : Int → EStateM Exn ρ Bool
  newContractIds : EStateM Exn ρ (Uuid × Uuid)
  /-- `FuturesEODRow.model_validate`, or the text of its `ValueError`. -/
  validateFuturesRow : Json → EStateM Exn ρ (Except String FuturesEODRow)
  /-- Evidence, missing deliveries and plan summaries of a run whose status is set. -/
  runServices : Uuid → RunRow → EStateM Exn ρ Unit
  flush : EStateM Exn ρ Unit
  accepts : Canonical.Write → Canonical.Tables → Bool
  acceptsStats : InstrumentStats → Bool
  commits : Canonical.Tables → Bool

section
variable {ρ ν : Type}

/-- A program on the other tables. -/
def onRest {α : Type} (x : EStateM Exn ρ α) : Norm ρ ν α :=
  focus (fun w => w.db.rest) (fun rest w => { w with db := { w.db with rest } }) x

def setLocals (f : ν → ν) : Norm ρ ν Unit := modify fun w => { w with locals := f w.locals }

def setDb (f : Db ρ → Db ρ) : Norm ρ ν Unit := modify fun w => { w with db := f w.db }

def count (b : Bucket) : Norm ρ ν Unit := modify fun w => { w with result := w.result.count b }

/-- `record_dq_issue`, and the issue among those of the result. -/
def addIssue (runId : Uuid) (instrumentId : Option Uuid) (issue : DQIssueRecord) : Norm ρ ν Unit :=
  modify fun w => { w with
    db := { w.db with dqIssues := w.db.dqIssues ++ [⟨runId, instrumentId, issue⟩] }
    result := { w.result with dqIssues := w.result.dqIssues ++ [issue] } }

def addIssues (runId : Uuid) (instrumentId : Option Uuid) (issues : List DQIssueRecord) :
    Norm ρ ν Unit := issues.forM (addIssue runId instrumentId)

/-- `_maybe_flush`, after one more record. -/
def recordDone (S : Services ρ) : Norm ρ ν Unit := do
  modify fun w => { w with processedRecords := w.processedRecords + 1 }
  let w ← get
  if w.processedRecords % 1000 = 0 then onRest S.flush else pure ()

/-- The columns `update_run_status` sets. -/
def RunRow.set (run : RunRow) (status : RunStatus) (total success failed : Nat)
    (errorMessage : Option String) (now : Instant) : RunRow :=
  { run with
    status
    totalRecords := total
    successRecords := success
    failedRecords := failed
    errorMessage
    startedAt := if status = .processing ∧ run.startedAt = none then some now else run.startedAt
    completedAt :=
      if status = .completed ∨ status = .completedWithErrors ∨ status = .failed then some now
      else run.completedAt }

/-- `update_run_status`. -/
def updateRunStatus (S : Services ρ) (runId : Uuid) (status : RunStatus) (total success failed : Nat)
    (errorMessage : Option String) : Norm ρ ν Unit := do
  let w ← get
  match w.db.runs runId with
  | none => pure ()
  | some run => do
    let run := run.set status total success failed errorMessage S.now
    setDb fun db => { db with runs := Function.update db.runs runId (some run) }
    onRest (S.runServices runId run)

/-- `record_precedence_rejection_summary`. -/
def recordPrecedenceRejectionSummary (runId : Uuid) : Norm ρ ν Unit := do
  let w ← get
  let n := w.result.precedenceRejectedRecords
  if n = 0 then pure ()
  else
    let writes := if n = 1 then "write" else "writes"
    addIssue runId none ⟨"SOURCE_PRECEDENCE_REJECTED", .warning,
      s!"Source precedence rejected {n} canonical {writes}", none,
      some (.obj [("rejected_records", natJson n)])⟩

/-- `await self.db.commit()`. -/
def commitSession (S : Services ρ) : Norm ρ ν Unit := do
  let w ← get
  if S.commits w.db.tables then modify fun w => { w with committed := w.db }
  else throw .sqlalchemy

/-- `except Exception: await self.db.rollback(); raise`. -/
def rollingBack (x : Norm ρ ν Unit) : Norm ρ ν Unit :=
  tryCatch x fun e => do
    modify fun w => { w with db := w.committed }
    throw e

end

/-! ## Delisted instruments -/

/-- `_check_delisted_instrument`; `stamp` is the trade date when it is a time. -/
def checkDelistedInstrument (instrument : Instrument) (tradeDate : CivilDate)
    (stamp : Option UtcTime) (rawData : Option Json) : Option DQIssueRecord :=
  if instrument.status ≠ "delisted" then none
  else match instrument.delistedDate with
    | none => some ⟨"DELISTED_NO_DATE", .error,
        s!"Instrument {instrument.symbol} is delisted but delisted_date is missing", stamp, rawData⟩
    | some delistedDate =>
      if delistedDate < tradeDate then
        let delistedText := delistedDate.isoformat
        let tradeText := tradeDate.isoformat
        some ⟨"DELISTED_AFTER_DATE", .error,
          s!"Instrument {instrument.symbol} delisted on {delistedText}, trade_date {tradeText}",
          stamp, rawData⟩
      else none

end FinDB.Normalize
