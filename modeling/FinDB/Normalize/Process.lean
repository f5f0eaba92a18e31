import FinDB.Normalize.Clean
import FinDB.Normalize.State

/-! # The normalizers

`process` of the daily, minute and futures normalizers. They share the frame: the run is
set to processing, the payload is mapped, each record ends in one counter, and the last
status is written. Daily and futures records keep the read statistics write by write; a
minute batch collects what it applied and merges it once. -/
namespace FinDB.Normalize
open FinDB.Lib

/-! ## Columns -/

/-- `LEAST`: a null argument does not count. -/
def least {κ : Type} [LinearOrder κ] : Option κ → Option κ → Option κ
  | some a, some b => some (min a b)
  | some a, none => some a
  | none, b => b

/-- `GREATEST`. -/
def greatest {κ : Type} [LinearOrder κ] : Option κ → Option κ → Option κ
  | some a, some b => some (max a b)
  | some a, none => some a
  | none, b => b

/-- `excluded IS NOT NULL AND (stored IS NULL OR excluded >= stored)`. -/
def moves {κ : Type} [LinearOrder κ] (stored excluded : Option κ) : Bool :=
  excluded.any fun e => stored.all fun s => decide (s ≤ e)

/-- The first instant a `datetime` has. -/
def epochOffset : Int := 62135596800000000

/-- A time as an instant, counted from the first one. -/
def instantOf (t : UtcTime) : Instant := (t.toMicros + epochOffset).toNat

/-! ## Read statistics -/

section
variable {ρ ν : Type}

/-- The values `update_instrument_stats` inserts. -/
def eodStats (date : Date) (price : Option Canonical.Decimal) (updateLatest : Bool) (now : Instant) :
    InstrumentStats :=
  { InstrumentStats.blank now with
    firstTradeDate := some date
    latestTradeDate := if updateLatest then some date else none
    latestPrice := price
    eodFirstDate := some date
    eodLatestDate := if updateLatest then some date else none
    eodLatestClose := price }

/-- What it does to a row that is there. -/
def InstrumentStats.withEod (s excluded : InstrumentStats) : InstrumentStats :=
  { s with
    firstTradeDate := least s.firstTradeDate excluded.firstTradeDate
    latestTradeDate := if moves s.latestTradeDate excluded.latestTradeDate then excluded.latestTradeDate
      else s.latestTradeDate
    latestPrice := if moves s.latestTradeDate excluded.latestTradeDate then excluded.latestPrice
      else s.latestPrice
    eodFirstDate := least s.eodFirstDate excluded.eodFirstDate
    eodLatestDate := if moves s.eodLatestDate excluded.eodLatestDate then excluded.eodLatestDate
      else s.eodLatestDate
    eodLatestClose := if moves s.eodLatestDate excluded.eodLatestDate then excluded.eodLatestClose
      else s.eodLatestClose
    updatedAt := excluded.updatedAt }

/-- The values `_update_minute_instrument_stats` inserts. -/
def minuteStats (applied : Span Instant Canonical.Decimal) (now : Instant) : InstrumentStats :=
  { InstrumentStats.blank now with
    minuteFirstBarAt := some applied.first
    minuteLatestBarAt := some applied.latest
    minuteLatestClose := some applied.value }

/-- What it does to a row that is there. -/
def InstrumentStats.withMinute (s excluded : InstrumentStats) : InstrumentStats :=
  let later := s.minuteLatestBarAt.all fun stored => excluded.minuteLatestBarAt.any (decide <| stored ≤ ·)
  { s with
    minuteFirstBarAt := least s.minuteFirstBarAt excluded.minuteFirstBarAt
    minuteLatestBarAt := if later then excluded.minuteLatestBarAt else s.minuteLatestBarAt
    minuteLatestClose := if later then excluded.minuteLatestClose else s.minuteLatestClose
    updatedAt := excluded.updatedAt }

/-- The values the futures normalizer inserts. -/
def futuresStats (date : Date) (now : Instant) : InstrumentStats :=
  { InstrumentStats.blank now with futuresFirstDate := some date, futuresLatestDate := some date }

def InstrumentStats.withFutures (s excluded : InstrumentStats) : InstrumentStats :=
  { s with
    futuresFirstDate := least s.futuresFirstDate excluded.futuresFirstDate
    futuresLatestDate := greatest s.futuresLatestDate excluded.futuresLatestDate
    updatedAt := excluded.updatedAt }

/-- `INSERT .. ON CONFLICT (instrument_id) DO UPDATE`. -/
def statsRow (update : InstrumentStats → InstrumentStats → InstrumentStats)
    (stored : Option InstrumentStats) (excluded : InstrumentStats) : InstrumentStats :=
  match stored with
  | none => excluded
  | some s => update s excluded

/-- An upsert of the read statistics of an instrument. -/
def upsertStats (S : Services ρ) (instrumentId : Uuid) (excluded : InstrumentStats)
    (update : InstrumentStats → InstrumentStats → InstrumentStats) : Norm ρ ν Unit := do
  let w ← get
  let row := statsRow update (w.db.stats instrumentId) excluded
  if S.acceptsStats row then
    setDb fun db => { db with stats := Function.update db.stats instrumentId (some row) }
  else throw .sqlalchemy

/-- `update_instrument_stats`. -/
def updateInstrumentStats (S : Services ρ) (instrumentId : Uuid) (date : Date)
    (latestPrice : Option Canonical.Decimal) (updateLatest : Bool) : Norm ρ ν Unit :=
  upsertStats S instrumentId (eodStats date latestPrice updateLatest S.now) InstrumentStats.withEod

/-- `_update_minute_instrument_stats`. -/
def updateMinuteInstrumentStats (S : Services ρ) (instrumentId : Uuid)
    (applied : Span Instant Canonical.Decimal) : Norm ρ ν Unit :=
  upsertStats S instrumentId (minuteStats applied S.now) InstrumentStats.withMinute

/-! ## Canonical writes -/

/-- A guarded upsert, and whether it was applied. -/
def execWrite (S : Services ρ) (write : Canonical.Write) : Norm ρ ν Bool := do
  let w ← get
  if S.accepts write w.db.tables then do
    setDb fun db => { db with tables := (write.run w.db.tables).1 }
    pure (write.run w.db.tables).2
  else throw .sqlalchemy

def eodValues (r : MappedRecord) : Canonical.EodValues where
  open_ := r.open_.map Dec.value
  high := r.high.map Dec.value
  low := r.low.map Dec.value
  close := r.close.map Dec.value
  volume := r.volume
  totalTicks := r.totalTicks
  turnover := r.turnover.map Dec.value

/-- `upsert_eod`. -/
def upsertEod (S : Services ρ) (instrumentId : Uuid) (r : MappedRecord) (runId : Uuid) :
    Norm ρ ν Bool := do
  let date := r.tradeDate.date
  let attached ← onRest (S.eodPartitionAttached date.year)
  if attached then do
    let applied ← execWrite S (.eod ⟨S.control, r.source, runId, S.now⟩
      ⟨instrumentId, date.toordinal⟩ (eodValues r))
    (if applied then
      updateInstrumentStats S instrumentId date.toordinal (r.close.map Dec.value) true
    else pure ())
    pure applied
  else throw (.eodPartitionUnavailable date.year)

def minuteValues (r : MarketMinuteRecord) (stop signal : UtcTime) : Canonical.MinuteValues where
  barEndTime := instantOf stop
  signalTime := instantOf signal
  marketTimezone := r.marketTimezone
  open_ := r.open_.map Dec.value
  high := r.high.map Dec.value
  low := r.low.map Dec.value
  close := r.close.map Dec.value
  volume := r.volume
  turnover := r.turnover.map Dec.value
  tradeCount := r.tradeCount
  priceAdjustment := r.priceAdjustment

/-- `upsert_minute`. -/
def upsertMinute (S : Services ρ) (instrumentId : Uuid) (r : MarketMinuteRecord) (runId : Uuid) :
    Norm ρ ν Bool :=
  match r.barStartTime, r.barEndTime, r.signalTime with
  | some start, some stop, some signal =>
    execWrite S (.minute ⟨S.control, r.source, runId, S.now⟩
      ⟨instrumentId, r.tradeDate.toordinal, instantOf start⟩ (minuteValues r stop signal))
  | _, _, _ => throw (.other "AssertionError" "")

end

/-! ## The frame -/

section
variable {ρ ν τ : Type}

/-- `process` around the loop: `load` maps the payload, `settle` runs after the records. -/
def processWith (S : Services ρ) (runId : Uuid) (commit : Bool) (load : Norm ρ ν (List τ))
    (each : τ → Norm ρ ν Unit) (settle : Norm ρ ν Unit)
    (summarize : List DQIssueRecord → Option String) : Norm ρ ν Unit := rollingBack do
  updateRunStatus S runId .processing 0 0 0 none
  let records ← load
  modify fun w => { w with result := { w.result with totalRecords := records.length } }
  records.forM each
  settle
  recordPrecedenceRejectionSummary runId
  let w ← get
  let status := if w.result.failedRecords = 0 then .completed else .completedWithErrors
  updateRunStatus S runId status w.result.totalRecords w.result.successRecords
    w.result.failedRecords (summarize w.result.dqIssues)
  if commit then commitSession S else pure ()

/-- A record in its own `try`: what the body raises goes to the handler, and the record is
done in any case. -/
def guarded (S : Services ρ) (body : Norm ρ ν Unit) (handler : Exn → Norm ρ ν Unit) : Norm ρ ν Unit :=
  cleanup (tryCatch body handler) (recordDone S)

/-- Raises what the mapping raises. -/
def mapped (r : Except MappingError (List τ)) : Norm ρ ν (List τ) :=
  match r with
  | .ok records => pure records
  | .error (.invalidOperation text) => throw (.other "InvalidOperation" text)

/-- The first three distinct descriptions. -/
def samples (lang : Language) (issues : List DQIssueRecord) : List String :=
  let described := issues.map fun i =>
    if i.description.isEmpty then i.issueType else lang.strip i.description
  described.dedup.take 3

/-- `_summarize_processing_errors`. -/
def summarizeProcessingErrors (lang : Language) (issues : List DQIssueRecord) : Option String :=
  let errors := issues.filter (·.issueType == "processing_error")
  let joined := String.intercalate "; " (samples lang errors)
  let n := errors.length
  if n = 0 then none
  else if n = 1 then some s!"Processing error: {joined}"
  else some s!"{n} processing errors. Samples: {joined}"

end

/-! ## Daily records -/

structure EodLocals where
  seenKeys : List EodKey
  instrument : Option Instrument

section
variable {ρ : Type}

/-- The check of corporate actions, for equities only. -/
def continuityIssue (S : Services ρ) (instrumentId : Uuid) (r : MappedRecord) :
    Norm ρ EodLocals (Option DQIssueRecord) := do
  let w ← get
  let assetClass := (given r.assetClass).getD (contractContext S.lang S.mapping).assetClass
  if assetClass = "equity" then
    onRest (S.checkCorporateActionContinuity w.db.tables instrumentId r)
  else pure none

/-- The `try` of one record in `BaseNormalizer.process`. -/
def eodBody (S : Services ρ) (checks : OhlcChecks) (runId : Uuid) (r : MappedRecord) :
    Norm ρ EodLocals Unit := do
  setLocals fun l => { l with instrument := none }
  let w ← get
  let validated := validateEod S.lang checks w.locals.seenKeys r
  let issues := validated.1
  setLocals fun l => { l with seenKeys := validated.2 }
  match S.decimalContext r with
  | some e => throw e
  | none =>
    if blocking issues then do
      addIssues runId none issues
      count .failed
    else do
      let instrument ← onRest (S.resolveInstrument r.toRecordHead)
      setLocals fun l => { l with instrument := some instrument }
      match checkDelistedInstrument instrument r.tradeDate.date (some r.tradeDate) r.rawData with
      | some issue => do
        addIssues runId (some instrument.instrumentId) (issues ++ [issue])
        count .failed
      | none => do
        onRest (S.getOrCreateTradingDay r.tradeDate.date r.market)
        -- the issues have not changed since they were tested above
        if blocking issues then do
          addIssues runId (some instrument.instrumentId) issues
          count .failed
        else do
          let continuity ← continuityIssue S instrument.instrumentId r
          addIssues runId (some instrument.instrumentId) (issues ++ continuity.toList)
          let applied ← upsertEod S instrument.instrumentId r runId
          count (if applied then .success else .rejected)

/-- Its handlers. -/
def eodHandler (S : Services ρ) (runId : Uuid) (r : MappedRecord) : Exn → Norm ρ EodLocals Unit
  | .sqlalchemy => throw .sqlalchemy
  | .eodPartitionUnavailable year => throw (.eodPartitionUnavailable year)
  | .other type_ message => do
    count .failed
    let w ← get
    addIssue runId (w.locals.instrument.map (·.instrumentId)) (r.issue "processing_error" .error
      (Exn.describe S.lang (.other type_ message)))

/-- `BaseNormalizer.process` of a contract normalizer. -/
def processEod (S : Services ρ) (checks : OhlcChecks) (raw : Json) (runId : Uuid) (commit : Bool) :
    Norm ρ EodLocals Unit :=
  processWith S runId commit (mapped (mapEodFields S.lang S.mapping raw))
    (fun r => guarded S (eodBody S checks runId r) (eodHandler S runId r)) (pure ())
    (summarizeProcessingErrors S.lang)

end

/-! ## Minute records -/

/-- `d[key] = value` of a dictionary in insertion order. -/
def dictSet {κ ν : Type} [DecidableEq κ] (key : κ) (value : ν) : List (κ × ν) → List (κ × ν)
  | [] => [(key, value)]
  | (k, v) :: rest => if k = key then (k, value) :: rest else (k, v) :: dictSet key value rest

structure MinuteLocals where
  seenKeys : List MinuteKey
  instrumentId : Option Uuid
  appliedStats : List (Uuid × Span Instant Canonical.Decimal)

/-- The issue that repeats an anomaly of the adapter. -/
def anomalyIssue (lang : Language) (r : MarketMinuteRecord) (anomaly : Json) : DQIssueRecord :=
  let fields := match anomaly with
    | .obj fields => fields
    | _ => []
  let field := strOf lang (item "field" fields)
  let reason := strOf lang (item "reason" fields)
  ⟨"MINUTE_ADAPTER_ANOMALY", .warning, s!"Adapter reported {field}: {reason}", r.barStartTime,
    some anomaly⟩

section
variable {ρ : Type}

/-- The statistics of a batch with one more applied bar. -/
def noteApplied (instrumentId : Uuid) (r : MarketMinuteRecord) : Norm ρ MinuteLocals Unit :=
  match r.barStartTime, r.close with
  | some start, some close => setLocals fun l =>
    let current := l.appliedStats.lookup instrumentId
    let next := match current with
      | none => Span.single (instantOf start) close.value
      | some s => s.put (instantOf start) close.value
    { l with appliedStats := dictSet instrumentId next l.appliedStats }
  | _, _ => throw (.other "AssertionError" "")

/-- The `try` of one record in `MarketMinuteContractNormalizer.process`. -/
def minuteBody (S : Services ρ) (raw : Json) (runId : Uuid) (r : MarketMinuteRecord) :
    Norm ρ MinuteLocals Unit := do
  setLocals fun l => { l with instrumentId := none }
  let w ← get
  let anomalies := anomaliesForRecord S.lang raw r
  let validated := validateMinute S.lang w.locals.seenKeys (anomalyFields S.lang anomalies) r
  setLocals fun l => { l with seenKeys := validated.2 }
  if blocking validated.1 then do
    addIssues runId none validated.1
    count .failed
  else do
    let instrument ← onRest (S.resolveInstrument r.toRecordHead)
    setLocals fun l => { l with instrumentId := some instrument.instrumentId }
    let delisted := checkDelistedInstrument instrument r.tradeDate none r.rawData
    let issues := validated.1 ++ delisted.toList ++ anomalies.map (anomalyIssue S.lang r)
    if blocking issues then do
      addIssues runId (some instrument.instrumentId) issues
      count .failed
    else do
      onRest (S.getOrCreateTradingDay r.tradeDate r.market)
      addIssues runId (some instrument.instrumentId) issues
      let applied ← upsertMinute S instrument.instrumentId r runId
      if applied then do
        count .success
        noteApplied instrument.instrumentId r
      else count .rejected

def minuteHandler (runId : Uuid) (r : MarketMinuteRecord) : Exn → Norm ρ MinuteLocals Unit
  | .sqlalchemy => throw .sqlalchemy
  | .eodPartitionUnavailable _ => failure "EODPartitionUnavailableError"
  | .other type_ _ => failure type_
where
  /-- A failed record. -/
  failure (type_ : String) : Norm ρ MinuteLocals Unit := do
    count .failed
    let w ← get
    addIssue runId w.locals.instrumentId
      ⟨"processing_error", .error, type_, r.barStartTime, r.rawData⟩

/-- The statistics of the batch, one instrument after the other. -/
def settleMinute (S : Services ρ) : Norm ρ MinuteLocals Unit := do
  let w ← get
  w.locals.appliedStats.forM fun e => updateMinuteInstrumentStats S e.1 e.2

/-- `MarketMinuteContractNormalizer.process`. -/
def processMinute (S : Services ρ) (raw : Json) (runId : Uuid) (commit : Bool) :
    Norm ρ MinuteLocals Unit :=
  let load : Norm ρ MinuteLocals (List MarketMinuteRecord) := do
    let records ← mapped (mapMinuteFields S.lang S.mapping raw)
    setLocals fun l => { l with seenKeys := repeatedKeys S.lang records }
    pure records
  processWith S runId commit load
    (fun r => guarded S (minuteBody S raw runId r) (minuteHandler runId r)) (settleMinute S)
    (summarizeProcessingErrors S.lang)

end

/-! ## Futures records -/

section
variable {ρ : Type}

/-- `text[:n]`. -/
def clip (n : Nat) (text : String) : String := String.ofList (text.toList.take n)

def futuresValues (r : FuturesEODRow) : Canonical.FuturesValues where
  open_ := r.open_.map Dec.value
  high := r.high.map Dec.value
  low := r.low.map Dec.value
  close := r.close.map Dec.value
  volume := r.volume
  settlementPrice := r.settlementPrice.map Dec.value
  openInterest := r.openInterest

/-- The contract, the quote and the statistics of a valid row. -/
def futuresBody (S : Services ρ) (runId : Uuid) (r : FuturesEODRow) :
    Norm ρ (Option Uuid) Unit := do
  let instrument ← onRest (S.getOrCreateInstrument r.productCode)
  setLocals fun _ => some instrument.instrumentId
  let ids ← onRest S.newContractIds
  let slot : Canonical.FuturesSlot :=
    ⟨⟨instrument.instrumentId, r.contractCode⟩, r.tradeDate.toordinal, r.session⟩
  let source := (contractContext S.lang S.mapping).source
  let applied ← execWrite S (.futures ⟨S.control, source, runId, S.now⟩ slot ids r.contractMonth
    (futuresValues r))
  if applied then do
    count .success
    upsertStats S instrument.instrumentId (futuresStats r.tradeDate.toordinal S.now)
      InstrumentStats.withFutures
  else count .rejected

def futuresHandler (runId : Uuid) (raw : Json) : Exn → Norm ρ (Option Uuid) Unit
  | .sqlalchemy => throw .sqlalchemy
  | .eodPartitionUnavailable year =>
    failure s!"EODPartitionUnavailableError: migration-owned EOD partition is unavailable for year {year}"
  | .other type_ message =>
    let clipped := clip 450 message
    failure s!"{type_}: {clipped}"
where
  /-- A failed record. -/
  failure (description : String) : Norm ρ (Option Uuid) Unit := do
    let w ← get
    addIssue runId w.locals ⟨"FUTURES_PROCESSING_ERROR", .error, description, none, some raw⟩
    count .failed

/-- One row of `FuturesEODContractNormalizer.process`: the validation stands in a `try` of
its own, which only catches a `ValueError`. -/
def futuresRecord (S : Services ρ) (runId : Uuid) (raw : Json) : Norm ρ (Option Uuid) Unit := do
  setLocals fun _ => none
  let row ← onRest (S.validateFuturesRow raw)
  match row with
  | .error message => do
    let rawData := match raw with
      | .obj _ => some raw
      | _ => none
    addIssue runId none ⟨"FUTURES_ROW_INVALID", .error, clip 500 message, none, rawData⟩
    count .failed
  | .ok row => tryCatch (futuresBody S runId row) (futuresHandler runId raw)

/-- `FuturesEODContractNormalizer.process`. -/
def processFutures (S : Services ρ) (raw : Json) (runId : Uuid) (commit : Bool) :
    Norm ρ (Option Uuid) Unit :=
  processWith S runId commit (pure (dataItems raw)) (futuresRecord S runId) (pure ()) fun _ => none

end

/-! ## A call -/

inductive Normalizer where
  | marketEod | marketEodV2 | marketMinute | futuresEod
deriving DecidableEq, Repr

structure Session (ρ : Type) where
  committed : Db ρ
  db : Db ρ

section
variable {ρ ν : Type}

/-- Runs a program in a session. -/
def inSession (x : Norm ρ ν Unit) (locals : ν) (s : Session ρ) :
    Except Exn NormalizeResult × Session ρ :=
  match x ⟨s.committed, s.db, .empty, 0, locals⟩ with
  | .ok _ w => (.ok w.result, ⟨w.committed, w.db⟩)
  | .error e w => (.error e, ⟨w.committed, w.db⟩)

/-- `normalizer.process(raw_payload, run_id, commit=commit)`. -/
def process (S : Services ρ) (normalizer : Normalizer) (raw : Json) (runId : Uuid) (commit : Bool) :
    Session ρ → Except Exn NormalizeResult × Session ρ :=
  match normalizer with
  | .marketEod => inSession (processEod S dqValidator raw runId commit) ⟨[], none⟩
  | .marketEodV2 => inSession (processEod S marketEodV2DqValidator raw runId commit) ⟨[], none⟩
  | .marketMinute => inSession (processMinute S raw runId commit) ⟨[], none, []⟩
  | .futuresEod => inSession (processFutures S raw runId commit) none

/-- How many records the payload maps to. -/
def mappedRecords (S : Services ρ) (normalizer : Normalizer) (raw : Json) : Option Nat :=
  match normalizer with
  | .marketEod | .marketEodV2 => (mapEodFields S.lang S.mapping raw).toOption.map List.length
  | .marketMinute => (mapMinuteFields S.lang S.mapping raw).toOption.map List.length
  | .futuresEod => some (dataItems raw).length

end

end FinDB.Normalize
