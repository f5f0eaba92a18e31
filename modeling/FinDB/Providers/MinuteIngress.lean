import FinDB.Normalize.Mapping
import FinDB.Providers.Shioaji

/-! # A minute request at the ingress

The validators of `MarketMinuteIngressRequest` over the document of a request: each field is
read from its text, and a model is built when its checks hold. The digests are computed
again from what was read. -/
namespace FinDB.Providers.Shioaji
open FinDB.Lib FinDB.Normalize

/-! ## Fields -/

section
variable (lib : Platform)

/-- `str_strip_whitespace` and `Field(min_length=lo, max_length=hi)`. -/
def strippedText (lo hi : Nat) (s : String) : Option (BoundedText lo hi) :=
  if h : lo ≤ (lib.strip s).length ∧ (lib.strip s).length ≤ hi then some ⟨lib.strip s, h⟩ else none

/-- An aware time; it is kept in UTC. -/
def readTime (s : String) : Option UtcTime :=
  match parseDatetime s with
  | some (t, true) => some t
  | _ => none

/-- `NonNegativeDecimal`. -/
def readDecimal (text : Text) : Option NonNegativeDecimal := (lib.decimal text).bind nonNegative

/-- A null field, or one that is read. -/
def readNullable {α β : Type} (read : α → Option β) : Option α → Option (Option β)
  | none => some none
  | some a => (read a).map some

/-- The largest integer literal that is read from JSON has 4300 digits. -/
def jsonInteger (n : Nat) : Bool := decide (n < 10 ^ 4300)

/-! ## Models -/

/-- `MarketMinuteRow`. -/
def validateMinuteRow (r : Row) : Option (MarketMinuteRow lib.toLanguage) := do
  let symbol ← strippedText lib 1 50 r.symbol
  let sourceSymbol ← strippedText lib 1 100 r.sourceSymbol
  let tradeDate ← CivilDate.fromisoformat r.tradeDate
  let barStartTime ← readTime r.barStartTime
  let barEndTime ← readTime r.barEndTime
  let signalTime ← readTime r.signalTime
  let open_ ← readDecimal lib r.open_
  let high ← readDecimal lib r.high
  let low ← readDecimal lib r.low
  let close ← readDecimal lib r.close
  let turnover ← readNullable (readDecimal lib) r.turnover
  if h : (r.marketTimezone = "Asia/Taipei" ∧ r.priceAdjustment = "none" ∧
        r.volume.all jsonInteger = true) ∧
      validateOhlcBounds (some open_) (some high) (some low) (some close) = true ∧
      (barEndTime.toMicros = barStartTime.toMicros + oneMinute ∧ signalTime = barEndTime) ∧
      lib.taipeiDate barStartTime = tradeDate then
    some {
      symbol
      sourceSymbol := some sourceSymbol
      tradeDate
      barStartTime
      barEndTime
      signalTime
      open_
      high
      low
      close
      volume := r.volume
      turnover
      ohlcBounds := h.2.1
      oneMinuteBar := h.2.2.1
      localDate := h.2.2.2 }
  else none

/-- `ProviderFieldAnomaly`. -/
def validateAnomaly (a : Anomaly) : Option (ProviderFieldAnomaly lib.toLanguage) := do
  let symbol ← strippedText lib 1 50 a.symbol
  let barStartTime ← readTime a.barStartTime
  let rawValue ← strippedText lib 1 500 a.rawValue
  let reason ← strippedText lib 1 500 a.reason
  let rawValueSha256 := lib.strip a.rawValueSha256
  if h : isSha256 rawValueSha256 = true ∧ rawValueSha256 = lib.sha256 rawValue.text then
    some ⟨symbol, barStartTime, a.field, rawValue, reason, rawValueSha256, h.2⟩
  else none

/-- `ProviderUsageSnapshot`. -/
def validateUsage (u : Usage) : Option ProviderUsageSnapshot :=
  if h : u.requestsUsed ≤ u.requestsLimit then
    some ⟨u.requestsUsed, some u.requestsLimit, fun _ hl => (Option.some.inj hl) ▸ h⟩
  else none

/-- `MarketMinuteBatch`. -/
def validateMinuteBatch (b : Batch) : Option (MarketMinuteBatch lib.toLanguage) := do
  let dataDate ← CivilDate.fromisoformat b.dataDate
  let coverageStartDate ← CivilDate.fromisoformat b.coverageStartDate
  let coverageEndDate ← CivilDate.fromisoformat b.coverageEndDate
  let snapshotId ← strippedText lib 1 100 b.snapshotId
  let dailyUpdateId ← strippedText lib 1 100 b.dailyUpdateId
  let universeId ← strippedText lib 1 100 b.universeId
  let before ← validateUsage b.providerUsageBefore
  let after ← validateUsage b.providerUsageAfter
  let anomalies ← b.anomalies.mapM (validateAnomaly lib)
  let symbolsSha256 := lib.strip b.symbolsSha256
  if h : b.deliveryMode = "sequenced_snapshot" ∧ isSha256 symbolsSha256 = true ∧
      (1 ≤ b.sequence ∧ b.sequence ≤ b.sequenceCount ∧ b.sequenceCount ≤ 99999) ∧
      (coverageStartDate = dataDate ∧ coverageEndDate = dataDate) ∧
      (before.requestsUsed ≤ after.requestsUsed ∧ after.requestsLimit = before.requestsLimit) ∧
      anomalies.length ≤ 15000 then
    some {
      dataDate
      declaredRecordCount := b.declaredRecordCount
      sourceRawRef := none
      sourceRawSha256 := none
      rawSha256 := rawSha256_none
      coverageStartDate
      coverageEndDate
      snapshotId
      dailyUpdateId
      universeId
      symbolsSha256
      sequence := b.sequence
      sequenceCount := b.sequenceCount
      providerUsageBefore := some before
      providerUsageAfter := some after
      anomalies
      symbolsSha256Hex := h.2.1
      sequences := h.2.2.1
      coverage := h.2.2.2.1
      usage := ⟨rfl, fun _ hb _ ha =>
        (Option.some.inj hb) ▸ (Option.some.inj ha) ▸ h.2.2.2.2.1⟩
      anomalyCount := h.2.2.2.2.2 }
  else none

/-- `MinuteSymbolStatus`. -/
def validateStatus (s : SymbolStatus) : Option MinuteSymbolStatus := do
  let symbol ← strippedText lib 1 50 s.symbol
  let reason ← readNullable (strippedText lib 1 500) s.reason
  if h : s.outcome = .data ↔ reason = none then some ⟨symbol, s.outcome, reason, h⟩ else none

/-- The checks of `MarketMinutePayload` between its parts. -/
def payloadChecks (limits : Limits) (batch : MarketMinuteBatch lib.toLanguage)
    (statuses : List MinuteSymbolStatus) (data : List (MarketMinuteRow lib.toLanguage)) : Prop :=
  (1 ≤ statuses.length ∧ statuses.length ≤ 50) ∧
  (data.length ≤ 15000 ∧ data.length ≤ limits.maxDataItems) ∧
  batch.declaredRecordCount = data.length ∧
  (statuses.map (·.symbol.text)).Nodup ∧
  batch.symbolsSha256 = lib.sha256 (symbolsText (statuses.map (·.symbol.text))) ∧
  (data.map fun row => (row.symbol.text, row.barStartTime)).Nodup ∧
  (∀ row ∈ data, ∃ status ∈ statuses, status.symbol = row.symbol ∧ status.outcome = .data) ∧
  (∀ row ∈ data, batch.coverageStartDate ≤ row.tradeDate ∧ row.tradeDate ≤ batch.coverageEndDate) ∧
  (∀ status ∈ statuses, status.outcome = .data → ∃ row ∈ data, row.symbol = status.symbol) ∧
  (batch.anomalies.map fun a => (a.symbol.text, a.barStartTime, a.field)).Nodup ∧
  (∀ a ∈ batch.anomalies, ∃ row ∈ data, row.symbol = a.symbol ∧
    row.barStartTime = a.barStartTime ∧ row.lacks a.field = true) ∧
  (∀ row ∈ data, ∀ field ∈ [AnomalyField.volume, .turnover], row.lacks field = true →
    ∃ a ∈ batch.anomalies, a.symbol = row.symbol ∧ a.barStartTime = row.barStartTime ∧
      a.field = field) ∧
  limits.payloadBytes (dumpMinute batch statuses data) ≤ limits.maxPayloadBytes

instance (limits : Limits) (batch : MarketMinuteBatch lib.toLanguage)
    (statuses : List MinuteSymbolStatus) (data : List (MarketMinuteRow lib.toLanguage)) :
    Decidable (payloadChecks lib limits batch statuses data) := by
  unfold payloadChecks
  infer_instance

/-- The parts of a payload. -/
structure Parts (lang : Language) where
  batch : MarketMinuteBatch lang
  statuses : List MinuteSymbolStatus
  data : List (MarketMinuteRow lang)

def readParts (r : Request) : Option (Parts lib.toLanguage) := do
  let batch ← validateMinuteBatch lib r.batch
  let statuses ← r.symbolStatuses.mapM (validateStatus lib)
  let data ← r.data.mapM (validateMinuteRow lib)
  return ⟨batch, statuses, data⟩

/-- `MarketMinutePayload`. -/
def validateMinutePayload (limits : Limits) (r : Request) :
    Option (MarketMinutePayload lib.toLanguage limits) := do
  let parts ← readParts lib r
  if h : payloadChecks lib limits parts.batch parts.statuses parts.data then
    some {
      batch := parts.batch
      symbolStatuses := parts.statuses
      data := parts.data
      statusCount := h.1
      itemCount := h.2.1
      declared := h.2.2.1
      statusSymbols := h.2.2.2.1
      checksum := h.2.2.2.2.1
      naturalKeys := h.2.2.2.2.2.1
      rowStatuses := h.2.2.2.2.2.2.1
      covered := h.2.2.2.2.2.2.2.1
      dataSymbols := h.2.2.2.2.2.2.2.2.1
      anomalyKeys := h.2.2.2.2.2.2.2.2.2.1
      anomalyRows := h.2.2.2.2.2.2.2.2.2.2.1
      nullFields := fun row hr field hl =>
        h.2.2.2.2.2.2.2.2.2.2.2.1 row hr field (by cases field <;> simp) hl
      size := h.2.2.2.2.2.2.2.2.2.2.2.2 }
  else none

/-! ## The request -/

/-- `^[a-z0-9_]+$`. -/
def isLowerKey (s : String) : Bool :=
  !s.toList.isEmpty && s.toList.all fun c => c.isDigit || decide ('a' ≤ c ∧ c ≤ 'z') || c == '_'

/-- A character of a string literal with `ensure_ascii=False`. -/
def escapePlain (c : Char) : List Char := if 127 ≤ c.toNat then [c] else escapeChar c

def writePlain (s : String) : List Char := '"' :: (s.toList.flatMap escapePlain ++ ['"'])

/-- `minute_sequence_key_digest`. -/
def minuteSequenceKeyDigest (datasetKey : String) (dataDate : CivilDate) (snapshotId : String)
    (sequence : Nat) : String :=
  lib.sha256 (identityText writePlain dataDate.isoformat datasetKey sequence snapshotId)

/-- `MarketMinuteIngressRequest.model_validate`. -/
def validateMinuteRequest (limits : Limits) (r : Request) :
    Option (MarketMinutePayload lib.toLanguage limits) := do
  let datasetKey ← strippedText lib 1 50 r.datasetKey
  let source ← strippedText lib 1 50 r.source
  let requestKey ← strippedText lib 1 100 r.requestKey
  let idempotencyKey ← strippedText lib 1 100 r.idempotencyKey
  let _ ← readTime r.fetchedAt
  let payload ← validateMinutePayload lib limits r
  let digest := minuteSequenceKeyDigest lib datasetKey.text payload.batch.dataDate
    payload.batch.snapshotId.text payload.batch.sequence
  if isLowerKey datasetKey.text && isLowerKey source.text && r.schemaId == "market_minute" &&
      r.schemaVersion == 1 && requestKey.text == "mmr:" ++ digest &&
      idempotencyKey.text == "mms:" ++ digest &&
      !(source.text == "shioaji" && payload.batch.providerUsageBefore.isNone) then
    some payload
  else none

/-- The ingress takes the request. -/
def accepts (limits : Limits) (r : Request) : Bool := (validateMinuteRequest lib limits r).isSome

end

end FinDB.Providers.Shioaji
