import Mathlib.Data.List.Sort
import FinDB.Lib.Collation
import FinDB.Normalize.Records

/-! # Accepted payloads

The ingress models of `market_eod.v1` and `market_minute.v1`. A value of a type here has
passed its validators: the constraints of fields and models are fields of the structures.
Texts are as they are after `str_strip_whitespace`. What is stored is `model_dump` in
JSON mode, as an object in key order. -/
namespace FinDB.Normalize
open FinDB.Lib

/-! ## Fields -/

/-- `Field(min_length=lo, max_length=hi)`. -/
structure BoundedText (lo hi : Nat) where
  text : String
  bounds : lo ≤ text.length ∧ text.length ≤ hi
deriving DecidableEq

structure NonNegativeDecimal where
  dec : Dec
  nonneg : 0 ≤ dec.value
deriving DecidableEq

structure CurrencyCode extends BoundedText 3 10 where
  alphabet : text.toList.all (fun c => c.isDigit || decide ('A' ≤ c ∧ c ≤ 'Z')) = true
deriving DecidableEq

/-- `^[0-9a-f]{64}$`. -/
def isSha256 (s : String) : Bool :=
  s.length == 64 && s.toList.all fun c => c.isDigit || decide ('a' ≤ c ∧ c ≤ 'f')

/-- `SOURCE_MAX_DATA_ITEMS`, `SOURCE_MAX_PAYLOAD_BYTES` and the bytes of a document. -/
structure Limits where
  maxDataItems : Nat
  maxPayloadBytes : Nat
  payloadBytes : Json → Nat

/-- `validate_ohlc_bounds`. -/
def validateOhlcBounds (open_ high low close : Option NonNegativeDecimal) : Bool :=
  let dec := Option.map NonNegativeDecimal.dec
  !belowAny (dec high) [dec open_, dec low, dec close] &&
    !aboveAny (dec low) [dec open_, dec high, dec close]

/-! ## Values in JSON mode -/

def decimalJson (d : NonNegativeDecimal) : Json := .str d.dec.text

def dateJson (d : CivilDate) : Json := .str d.isoformat

/-- A time in UTC, with `Z` for its zone. -/
def timeJson (t : UtcTime) : Json := .str (String.ofList t.zChars)

def natJson (n : Nat) : Json := .int n

/-- A field that may be null. -/
def nullable {α : Type} (json : α → Json) : Option α → Json
  | none => .null
  | some a => json a

/-! ## Batches -/

inductive DeliveryMode where
  | fullSnapshot | incremental | backfill
deriving DecidableEq, Repr

def DeliveryMode.name : DeliveryMode → String
  | .fullSnapshot => "full_snapshot"
  | .incremental => "incremental"
  | .backfill => "backfill"

/-- The parts of a batch every contract has. -/
structure BatchHead where
  dataDate : CivilDate
  declaredRecordCount : Nat
  sourceRawRef : Option (BoundedText 1 2048)
  sourceRawSha256 : Option String
  rawSha256 : sourceRawSha256.all isSha256 = true

theorem rawSha256_none : (none : Option String).all isSha256 = true := rfl

structure IngressBatch extends BatchHead where
  deliveryMode : DeliveryMode
  coverageStartDate : Option CivilDate
  coverageEndDate : Option CivilDate
  sequence : Option Nat
  sequenceCount : Option Nat
  sequences : sequence.isNone = sequenceCount.isNone ∧
    ∀ s ∈ sequence, 1 ≤ s ∧ ∀ n ∈ sequenceCount, s ≤ n
  coverage : coverageStartDate.isNone = coverageEndDate.isNone ∧
    ∀ start ∈ coverageStartDate, ∀ stop ∈ coverageEndDate, start ≤ stop
  backfill : deliveryMode = .backfill → ∀ stop ∈ coverageEndDate, dataDate = stop

def IngressBatch.dump (b : IngressBatch) : Json :=
  .obj [("coverage_end_date", nullable dateJson b.coverageEndDate),
    ("coverage_start_date", nullable dateJson b.coverageStartDate),
    ("data_date", dateJson b.dataDate),
    ("declared_record_count", natJson b.declaredRecordCount),
    ("delivery_mode", .str b.deliveryMode.name),
    ("sequence", nullable natJson b.sequence),
    ("sequence_count", nullable natJson b.sequenceCount),
    ("source_raw_ref", nullable (fun r => .str r.text) b.sourceRawRef),
    ("source_raw_sha256", nullable .str b.sourceRawSha256)]

/-! ## `market_eod.v1` -/

structure MarketEODRow where
  symbol : BoundedText 1 50
  sourceSymbol : Option (BoundedText 1 100)
  tradeDate : CivilDate
  name : Option (BoundedText 1 200)
  currency : Option CurrencyCode
  open_ : Option NonNegativeDecimal
  high : Option NonNegativeDecimal
  low : Option NonNegativeDecimal
  close : NonNegativeDecimal
  volume : Option Nat
  turnover : Option NonNegativeDecimal
  totalTicks : Option Nat
  ohlcBounds : validateOhlcBounds open_ high low (some close) = true
deriving DecidableEq

def MarketEODRow.fields (r : MarketEODRow) : List (String × Json) :=
  [("close", decimalJson r.close),
    ("currency", nullable (fun c => .str c.text) r.currency),
    ("high", nullable decimalJson r.high),
    ("low", nullable decimalJson r.low),
    ("name", nullable (fun n => .str n.text) r.name),
    ("open", nullable decimalJson r.open_),
    ("source_symbol", nullable (fun s => .str s.text) r.sourceSymbol),
    ("symbol", .str r.symbol.text),
    ("total_ticks", nullable natJson r.totalTicks),
    ("trade_date", dateJson r.tradeDate),
    ("turnover", nullable decimalJson r.turnover),
    ("volume", nullable natJson r.volume)]

def MarketEODRow.dump (r : MarketEODRow) : Json := .obj r.fields

/-- The stored document of a daily payload. -/
def dumpEod (batch : IngressBatch) (data : List MarketEODRow) : Json :=
  .obj [("batch", batch.dump), ("data", .arr (data.map MarketEODRow.dump))]

structure MarketEODPayload (limits : Limits) where
  batch : IngressBatch
  data : List MarketEODRow
  itemCount : data.length ≤ limits.maxDataItems
  declared : batch.declaredRecordCount = data.length
  covered : (∃ row ∈ data, row.tradeDate ≠ batch.dataDate) →
    ∃ start ∈ batch.coverageStartDate, ∃ stop ∈ batch.coverageEndDate,
      ∀ row ∈ data, start ≤ row.tradeDate ∧ row.tradeDate ≤ stop
  naturalKeys : (data.map fun row => (row.symbol.text, row.tradeDate)).Nodup
  size : limits.payloadBytes (dumpEod batch data) ≤ limits.maxPayloadBytes

def MarketEODPayload.dump {limits : Limits} (p : MarketEODPayload limits) : Json :=
  dumpEod p.batch p.data

/-! ## `market_minute.v1` -/

inductive MinuteSymbolOutcome where
  | data | expectedNoData | error
deriving DecidableEq, Repr

def MinuteSymbolOutcome.name : MinuteSymbolOutcome → String
  | .data => "data"
  | .expectedNoData => "expected_no_data"
  | .error => "error"

structure MinuteSymbolStatus where
  symbol : BoundedText 1 50
  outcome : MinuteSymbolOutcome
  reason : Option (BoundedText 1 500)
  reasonForNonData : outcome = .data ↔ reason = none

def MinuteSymbolStatus.dump (s : MinuteSymbolStatus) : Json :=
  .obj [("outcome", .str s.outcome.name),
    ("reason", nullable (fun r => .str r.text) s.reason),
    ("symbol", .str s.symbol.text)]

structure ProviderUsageSnapshot where
  requestsUsed : Nat
  requestsLimit : Option Nat
  withinLimit : ∀ limit ∈ requestsLimit, requestsUsed ≤ limit

def ProviderUsageSnapshot.dump (u : ProviderUsageSnapshot) : Json :=
  .obj [("requests_limit", nullable natJson u.requestsLimit), ("requests_used", natJson u.requestsUsed)]

/-- The fields an anomaly may be about. -/
inductive AnomalyField where
  | volume | turnover
deriving DecidableEq, Repr

def AnomalyField.name : AnomalyField → String
  | .volume => "volume"
  | .turnover => "turnover"

structure ProviderFieldAnomaly (lang : Language) where
  symbol : BoundedText 1 50
  barStartTime : UtcTime
  field : AnomalyField
  rawValue : BoundedText 1 500
  reason : BoundedText 1 500
  rawValueSha256 : String
  checksum : rawValueSha256 = lang.sha256 rawValue.text

def ProviderFieldAnomaly.fields {lang : Language} (a : ProviderFieldAnomaly lang) :
    List (String × Json) :=
  [("bar_start_time", timeJson a.barStartTime),
    ("field", .str a.field.name),
    ("raw_value", .str a.rawValue.text),
    ("raw_value_sha256", .str a.rawValueSha256),
    ("reason", .str a.reason.text),
    ("symbol", .str a.symbol.text)]

def ProviderFieldAnomaly.dump {lang : Language} (a : ProviderFieldAnomaly lang) : Json :=
  .obj a.fields

structure MarketMinuteRow (lang : Language) where
  symbol : BoundedText 1 50
  sourceSymbol : Option (BoundedText 1 100)
  tradeDate : CivilDate
  barStartTime : UtcTime
  barEndTime : UtcTime
  signalTime : UtcTime
  open_ : NonNegativeDecimal
  high : NonNegativeDecimal
  low : NonNegativeDecimal
  close : NonNegativeDecimal
  volume : Option Nat
  turnover : Option NonNegativeDecimal
  ohlcBounds : validateOhlcBounds (some open_) (some high) (some low) (some close) = true
  oneMinuteBar : barEndTime.toMicros = barStartTime.toMicros + oneMinute ∧ signalTime = barEndTime
  localDate : lang.taipeiDate barStartTime = tradeDate

/-- `getattr(row, field) is None`. -/
def MarketMinuteRow.lacks {lang : Language} (r : MarketMinuteRow lang) : AnomalyField → Bool
  | .volume => r.volume.isNone
  | .turnover => r.turnover.isNone

def MarketMinuteRow.fields {lang : Language} (r : MarketMinuteRow lang) : List (String × Json) :=
  [("bar_end_time", timeJson r.barEndTime),
    ("bar_start_time", timeJson r.barStartTime),
    ("close", decimalJson r.close),
    ("high", decimalJson r.high),
    ("low", decimalJson r.low),
    ("market_timezone", .str "Asia/Taipei"),
    ("open", decimalJson r.open_),
    ("price_adjustment", .str "none"),
    ("signal_time", timeJson r.signalTime),
    ("source_symbol", nullable (fun s => .str s.text) r.sourceSymbol),
    ("symbol", .str r.symbol.text),
    ("trade_count", .null),
    ("trade_date", dateJson r.tradeDate),
    ("turnover", nullable decimalJson r.turnover),
    ("volume", nullable natJson r.volume)]

def MarketMinuteRow.dump {lang : Language} (r : MarketMinuteRow lang) : Json := .obj r.fields

structure MarketMinuteBatch (lang : Language) extends BatchHead where
  coverageStartDate : CivilDate
  coverageEndDate : CivilDate
  snapshotId : BoundedText 1 100
  dailyUpdateId : BoundedText 1 100
  universeId : BoundedText 1 100
  symbolsSha256 : String
  sequence : Nat
  sequenceCount : Nat
  providerUsageBefore : Option ProviderUsageSnapshot
  providerUsageAfter : Option ProviderUsageSnapshot
  anomalies : List (ProviderFieldAnomaly lang)
  symbolsSha256Hex : isSha256 symbolsSha256 = true
  sequences : 1 ≤ sequence ∧ sequence ≤ sequenceCount ∧ sequenceCount ≤ 99999
  coverage : coverageStartDate = dataDate ∧ coverageEndDate = dataDate
  usage : providerUsageBefore.isNone = providerUsageAfter.isNone ∧
    ∀ before ∈ providerUsageBefore, ∀ after ∈ providerUsageAfter,
      before.requestsUsed ≤ after.requestsUsed ∧ after.requestsLimit = before.requestsLimit
  anomalyCount : anomalies.length ≤ 15000

def MarketMinuteBatch.dump {lang : Language} (b : MarketMinuteBatch lang) : Json :=
  .obj [("anomalies", .arr (b.anomalies.map ProviderFieldAnomaly.dump)),
    ("coverage_end_date", dateJson b.coverageEndDate),
    ("coverage_start_date", dateJson b.coverageStartDate),
    ("daily_update_id", .str b.dailyUpdateId.text),
    ("data_date", dateJson b.dataDate),
    ("declared_record_count", natJson b.declaredRecordCount),
    ("delivery_mode", .str "sequenced_snapshot"),
    ("provider_usage_after", nullable ProviderUsageSnapshot.dump b.providerUsageAfter),
    ("provider_usage_before", nullable ProviderUsageSnapshot.dump b.providerUsageBefore),
    ("sequence", natJson b.sequence),
    ("sequence_count", natJson b.sequenceCount),
    ("snapshot_id", .str b.snapshotId.text),
    ("source_raw_ref", nullable (fun r => .str r.text) b.sourceRawRef),
    ("source_raw_sha256", nullable .str b.sourceRawSha256),
    ("symbols_sha256", .str b.symbolsSha256),
    ("universe_id", .str b.universeId.text)]

/-- The stored document of a minute payload. -/
def dumpMinute {lang : Language} (batch : MarketMinuteBatch lang)
    (symbolStatuses : List MinuteSymbolStatus) (data : List (MarketMinuteRow lang)) : Json :=
  .obj [("batch", batch.dump), ("data", .arr (data.map MarketMinuteRow.dump)),
    ("symbol_statuses", .arr (symbolStatuses.map MinuteSymbolStatus.dump))]

structure MarketMinutePayload (lang : Language) (limits : Limits) where
  batch : MarketMinuteBatch lang
  symbolStatuses : List MinuteSymbolStatus
  data : List (MarketMinuteRow lang)
  statusCount : 1 ≤ symbolStatuses.length ∧ symbolStatuses.length ≤ 50
  itemCount : data.length ≤ 15000 ∧ data.length ≤ limits.maxDataItems
  declared : batch.declaredRecordCount = data.length
  statusSymbols : (symbolStatuses.map (·.symbol.text)).Nodup
  checksum : batch.symbolsSha256 = lang.sha256 (String.intercalate "\n"
    ((symbolStatuses.map (·.symbol.text)).insertionSort (· ≤ ·)))
  naturalKeys : (data.map fun row => (row.symbol.text, row.barStartTime)).Nodup
  rowStatuses : ∀ row ∈ data, ∃ status ∈ symbolStatuses,
    status.symbol = row.symbol ∧ status.outcome = .data
  covered : ∀ row ∈ data, batch.coverageStartDate ≤ row.tradeDate ∧
    row.tradeDate ≤ batch.coverageEndDate
  dataSymbols : ∀ status ∈ symbolStatuses, status.outcome = .data →
    ∃ row ∈ data, row.symbol = status.symbol
  anomalyKeys : (batch.anomalies.map fun a => (a.symbol.text, a.barStartTime, a.field)).Nodup
  anomalyRows : ∀ a ∈ batch.anomalies, ∃ row ∈ data, row.symbol = a.symbol ∧
    row.barStartTime = a.barStartTime ∧ row.lacks a.field = true
  nullFields : ∀ row ∈ data, ∀ field, row.lacks field = true → ∃ a ∈ batch.anomalies,
    a.symbol = row.symbol ∧ a.barStartTime = row.barStartTime ∧ a.field = field
  size : limits.payloadBytes (dumpMinute batch symbolStatuses data) ≤ limits.maxPayloadBytes

def MarketMinutePayload.dump {lang : Language} {limits : Limits}
    (p : MarketMinutePayload lang limits) : Json :=
  dumpMinute p.batch p.symbolStatuses p.data

end FinDB.Normalize
