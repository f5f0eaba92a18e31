import FinDB.Lib.Civil
import FinDB.Lib.Decimal
import FinDB.Lib.Json

/-! # Records and their data quality

A normalizer maps each row of a payload to a record and checks the record before it
resolves its instrument. A check answers with an issue or none; only issues of severity
`error` stop a record. Prices are exact: the rounding of the decimal context is left out. -/
namespace FinDB.Normalize
open FinDB.Lib

/-- `SOURCE_NAME_PATTERN`, with the bounds of the column. -/
def isSourceName (s : String) : Bool :=
  decide (1 ≤ s.length ∧ s.length ≤ 50) &&
    s.toList.all fun c => c.isDigit || (decide ('a' ≤ c ∧ c ≤ 'z') || c == '_')

/-- What the normalizers take from the language: string methods, `str` and `int` of what
is no text or number, `format(x, ".2%")`, SHA-256 and the zone database. -/
structure Language where
  strip : String → String
  upper : String → String
  lower : String → String
  str : Json → String
  int : String → Option Int
  percent : ℚ → String
  sha256 : String → String
  /-- `value.astimezone(ZoneInfo("Asia/Taipei")).date()`. -/
  taipeiDate : UtcTime → CivilDate
  /-- Printable ASCII without blanks has nothing to strip. -/
  strip_eq : ∀ s, (s.toList.all fun c => decide ('!' ≤ c ∧ c ≤ '~')) = true → strip s = s
  /-- A source name has no capitals. -/
  lower_eq : ∀ s, isSourceName s = true → lower s = s

/-! ## Records -/

/-- The fields every record has. -/
structure RecordHead where
  symbol : String
  market : Option String
  assetClass : Option String
  name : Option String
  currency : Option String
  source : Option String
  rawData : Option Json
  identifierType : Option String
  identifierValue : Option String
deriving DecidableEq

structure MappedRecord extends RecordHead where
  tradeDate : UtcTime
  open_ : Option Dec
  high : Option Dec
  low : Option Dec
  close : Option Dec
  volume : Option Int
  turnover : Option Dec
  totalTicks : Option Int
deriving DecidableEq

structure MarketMinuteRecord extends RecordHead where
  tradeDate : CivilDate
  barStartTime : Option UtcTime
  barEndTime : Option UtcTime
  signalTime : Option UtcTime
  marketTimezone : Option String
  priceAdjustment : Option String
  open_ : Option Dec
  high : Option Dec
  low : Option Dec
  close : Option Dec
  volume : Option Int
  turnover : Option Dec
  tradeCount : Option Int
deriving DecidableEq

/-! ## Issues -/

inductive Severity where
  | info | warning | error | critical
deriving DecidableEq, Repr

structure DQIssueRecord where
  issueType : String
  severity : Severity
  description : String
  tradeDate : Option UtcTime
  rawData : Option Json
deriving DecidableEq

/-- `any(issue.severity == "error" for issue in issues)`. -/
def blocking (issues : List DQIssueRecord) : Bool := issues.any (·.severity == .error)

theorem blocking_append (xs ys : List DQIssueRecord) :
    blocking (xs ++ ys) = (blocking xs || blocking ys) := List.any_append

theorem blocking_filterMap (checks : List (Option DQIssueRecord)) :
    blocking (checks.filterMap id) = checks.any fun c => c.any (·.severity == .error) := by
  unfold blocking
  rw [List.any_filterMap]
  rfl

/-! ## Daily records -/

/-- `(market, symbol, trade_date)` of a batch. -/
abbrev EodKey := String × String × UtcTime

def MappedRecord.issue (r : MappedRecord) (issueType : String) (severity : Severity)
    (description : String) : DQIssueRecord :=
  ⟨issueType, severity, description, some r.tradeDate, r.rawData⟩

/-- The key a record is known by in its batch. -/
def eodKey (lang : Language) (r : MappedRecord) : EodKey :=
  (match r.market with
    | some market => if market.isEmpty then "" else lang.strip (lang.upper market)
    | none => "", r.symbol, r.tradeDate)

/-- `_check_duplicate_key`, with the keys seen after it. -/
def checkDuplicateKey (lang : Language) (seenKeys : List EodKey) (r : MappedRecord) :
    Option DQIssueRecord × List EodKey :=
  if r.symbol.isEmpty then (none, seenKeys)
  else if eodKey lang r ∈ seenKeys then
    (some (r.issue "DUPLICATE_KEY" .error "Duplicate instrument/trade_date in batch"), seenKeys)
  else (none, eodKey lang r :: seenKeys)

/-- `_check_ohlc_high` of version 1. -/
def checkOhlcHigh (r : MappedRecord) : Option DQIssueRecord :=
  match r.high, r.open_, r.close with
  | some high, some open_, some close =>
    if high < open_.max close then
      some (r.issue "OHLC_HIGH_CHECK" .error
        s!"High ({high.text}) is less than max(open, close) ({(open_.max close).text})")
    else none
  | _, _, _ => none

/-- `_check_ohlc_low` of version 1. -/
def checkOhlcLow (r : MappedRecord) : Option DQIssueRecord :=
  match r.low, r.open_, r.close with
  | some low, some open_, some close =>
    if open_.min close < low then
      some (r.issue "OHLC_LOW_CHECK" .error
        s!"Low ({low.text}) is greater than min(open, close) ({(open_.min close).text})")
    else none
  | _, _, _ => none

/-- A value below one that is provided. -/
def belowAny (value : Option Dec) (values : List (Option Dec)) : Bool :=
  match value, values.filterMap id with
  | some value, x :: xs => decide (value < xs.foldl Dec.max x)
  | _, _ => false

/-- A value above one that is provided. -/
def aboveAny (value : Option Dec) (values : List (Option Dec)) : Bool :=
  match value, values.filterMap id with
  | some value, x :: xs => decide (xs.foldl Dec.min x < value)
  | _, _ => false

/-- Below none: every value that is provided is at most this one. -/
theorem belowAny_eq_false {value : Option Dec} {values : List (Option Dec)} :
    belowAny value values = false ↔ ∀ v ∈ value, ∀ x ∈ values, ∀ d ∈ x, d ≤ v := by
  have hmem : (∀ v ∈ value, ∀ x ∈ values, ∀ d ∈ x, d ≤ v) ↔
      ∀ v ∈ value, ∀ d ∈ values.filterMap id, d ≤ v := by
    simp only [List.mem_filterMap, id]
    exact ⟨fun h v hv d ⟨x, hx, hd⟩ => h v hv x hx d hd, fun h v hv x hx d hd => h v hv d ⟨x, hx, hd⟩⟩
  rw [hmem]
  unfold belowAny
  split
  · rename_i v x xs hxs
    rw [hxs, decide_eq_false_iff_not, Dec.not_lt, Dec.foldl_max_le_iff]
    simp
  · rename_i hnot
    refine iff_of_true rfl fun v hv d hd => ?_
    cases hxs : values.filterMap id with
    | nil =>
      rw [hxs] at hd
      cases hd
    | cons x xs => exact absurd hxs (hnot v x xs hv)

theorem aboveAny_eq_false {value : Option Dec} {values : List (Option Dec)} :
    aboveAny value values = false ↔ ∀ v ∈ value, ∀ x ∈ values, ∀ d ∈ x, v ≤ d := by
  have hmem : (∀ v ∈ value, ∀ x ∈ values, ∀ d ∈ x, v ≤ d) ↔
      ∀ v ∈ value, ∀ d ∈ values.filterMap id, v ≤ d := by
    simp only [List.mem_filterMap, id]
    exact ⟨fun h v hv d ⟨x, hx, hd⟩ => h v hv x hx d hd, fun h v hv x hx d hd => h v hv d ⟨x, hx, hd⟩⟩
  rw [hmem]
  unfold aboveAny
  split
  · rename_i v x xs hxs
    rw [hxs, decide_eq_false_iff_not, Dec.not_lt, Dec.le_foldl_min_iff]
    simp
  · rename_i hnot
    refine iff_of_true rfl fun v hv d hd => ?_
    cases hxs : values.filterMap id with
    | nil =>
      rw [hxs] at hd
      cases hd
    | cons x xs => exact absurd hxs (hnot v x xs hv)

/-- `_check_ohlc_high` of version 2. -/
def checkOhlcHighV2 (r : MappedRecord) : Option DQIssueRecord :=
  if belowAny r.high [r.open_, r.low, r.close] then
    some (r.issue "OHLC_HIGH_CHECK" .error "High is below a provided open, low, or close")
  else none

/-- `_check_ohlc_low` of version 2. -/
def checkOhlcLowV2 (r : MappedRecord) : Option DQIssueRecord :=
  if aboveAny r.low [r.open_, r.high, r.close] then
    some (r.issue "OHLC_LOW_CHECK" .error "Low is above a provided open, high, or close")
  else none

/-- `_check_volume_positive`. -/
def checkVolumePositive (r : MappedRecord) : Option DQIssueRecord :=
  r.volume.bind fun volume =>
    if volume < 0 then
      some (r.issue "VOLUME_POSITIVE" .error s!"Volume ({volume}) is negative")
    else none

/-- `_check_missing_ohlc`. -/
def checkMissingOhlc (r : MappedRecord) : Option DQIssueRecord :=
  let missing := ([("open", r.open_), ("high", r.high), ("low", r.low), ("close", r.close)].filter
    (·.2.isNone)).map (·.1)
  if missing.isEmpty then none
  else some (r.issue "MISSING_OHLC" .warning
    ("Missing OHLC fields: " ++ String.intercalate ", " missing))

theorem missing_not_error (r : MappedRecord) :
    (checkMissingOhlc r).any (·.severity == .error) = false := by
  unfold checkMissingOhlc
  simp only
  split <;> rfl

/-- `ABNORMAL_RETURN_THRESHOLD`. -/
def abnormalReturnThreshold : ℚ := 3 / 10

/-- `_check_abnormal_return`. -/
def checkAbnormalReturn (lang : Language) (r : MappedRecord) : Option DQIssueRecord :=
  match r.open_, r.close with
  | some open_, some close =>
    if open_.value = 0 then none
    else
      let dailyReturn := |(close.value - open_.value) / open_.value|
      if abnormalReturnThreshold < dailyReturn then
        some (r.issue "ABNORMAL_RETURN" .warning
          ("Abnormal daily return: " ++ lang.percent dailyReturn ++ " (threshold: 30%)"))
      else none
  | _, _ => none

theorem abnormal_not_error (lang : Language) (r : MappedRecord) :
    (checkAbnormalReturn lang r).any (·.severity == .error) = false := by
  unfold checkAbnormalReturn
  split
  · split
    · rfl
    · simp only
      split <;> rfl
  · rfl

/-- The two checks the versions differ in. -/
structure OhlcChecks where
  high : MappedRecord → Option DQIssueRecord
  low : MappedRecord → Option DQIssueRecord

/-- `DQValidator`. -/
def dqValidator : OhlcChecks := ⟨checkOhlcHigh, checkOhlcLow⟩

/-- `MarketEODV2DQValidator`. -/
def marketEodV2DqValidator : OhlcChecks := ⟨checkOhlcHighV2, checkOhlcLowV2⟩

/-- `validate_eod`, with the keys seen after it. -/
def validateEod (lang : Language) (checks : OhlcChecks) (seenKeys : List EodKey) (r : MappedRecord) :
    List DQIssueRecord × List EodKey :=
  let duplicate := checkDuplicateKey lang seenKeys r
  ([duplicate.1, checks.high r, checks.low r, checkVolumePositive r, checkMissingOhlc r,
    checkAbnormalReturn lang r].filterMap id, duplicate.2)

/-! ## Minute records -/

/-- `(market, symbol, bar_start_time)` of a batch. -/
abbrev MinuteKey := String × String × UtcTime

def MarketMinuteRecord.error (r : MarketMinuteRecord) (issueType description : String) :
    DQIssueRecord :=
  ⟨issueType, .error, description, r.barStartTime, r.rawData⟩

/-- An issue when something is wrong. -/
def MarketMinuteRecord.errorIf (r : MarketMinuteRecord) (wrong : Bool)
    (issueType description : String) : List DQIssueRecord :=
  if wrong then [r.error issueType description] else []

@[simp] theorem MarketMinuteRecord.errorIf_false (r : MarketMinuteRecord)
    (issueType description : String) : r.errorIf false issueType description = [] := rfl

theorem MarketMinuteRecord.blocking_errorIf (r : MarketMinuteRecord) (wrong : Bool)
    (issueType description : String) : blocking (r.errorIf wrong issueType description) = wrong := by
  cases wrong <;> rfl

/-- One minute, in microseconds. -/
def oneMinute : Int := 60000000

/-- The first thing that is wrong with the timestamps. -/
def minuteTimestamps (r : MarketMinuteRecord) : List DQIssueRecord :=
  match r.barStartTime, r.barEndTime, r.signalTime with
  | some start, some stop, some signal =>
    if stop.toMicros - start.toMicros ≠ oneMinute then
      [r.error "MINUTE_INTERVAL_INVALID" "bar_end_time must be exactly one minute after bar_start_time"]
    else r.errorIf (decide (signal ≠ stop)) "MINUTE_SIGNAL_INVALID" "signal_time must equal bar_end_time"
  | _, _, _ =>
    [r.error "MINUTE_TIMESTAMP_INVALID" "bar timestamps must be timezone-aware UTC datetimes"]

/-- The key of a record at a bar start. -/
def minuteKey (lang : Language) (r : MarketMinuteRecord) (start : UtcTime) : MinuteKey :=
  (lang.upper (r.market.getD ""), r.symbol, start)

/-- The checks that need a bar start, with the keys seen after them. -/
def minuteSlot (lang : Language) (seenKeys : List MinuteKey) (r : MarketMinuteRecord) :
    List DQIssueRecord × List MinuteKey :=
  match r.barStartTime with
  | none => ([], seenKeys)
  | some start =>
    let key := minuteKey lang r start
    (r.errorIf (decide (r.tradeDate ≠ lang.taipeiDate start)) "MINUTE_TRADE_DATE_INVALID"
        "trade_date must be the Taiwan-local bar_start_time date" ++
      r.errorIf (decide (key ∈ seenKeys)) "DUPLICATE_KEY"
        "Duplicate instrument/bar_start_time in batch",
      key :: seenKeys)

def minutePrices (r : MarketMinuteRecord) : List DQIssueRecord :=
  match r.open_, r.high, r.low, r.close with
  | some open_, some high, some low, some close =>
    r.errorIf (decide (high < open_.max close)) "OHLC_HIGH_CHECK" "High must be at least max(open, close)" ++
      (r.errorIf (decide (open_.min close < low)) "OHLC_LOW_CHECK" "Low must be at most min(open, close)" ++
        r.errorIf ([open_, high, low, close].any fun d => decide (d.value < 0)) "MINUTE_OHLC_NEGATIVE"
          "minute OHLC fields must be nonnegative")
  | _, _, _, _ => [r.error "MISSING_OHLC" "minute OHLC fields are required"]

/-- `validate_minute`, with the keys seen after it. The times of a record are in UTC. -/
def validateMinute (lang : Language) (seenKeys : List MinuteKey) (anomalyFields : List String)
    (r : MarketMinuteRecord) : List DQIssueRecord × List MinuteKey :=
  let slot := minuteSlot lang seenKeys r
  (minuteTimestamps r ++
    r.errorIf (r.marketTimezone != some "Asia/Taipei") "MINUTE_MARKET_TIMEZONE_INVALID"
      "market_timezone must be Asia/Taipei" ++
    r.errorIf (r.priceAdjustment != some "none") "MINUTE_PRICE_ADJUSTMENT_INVALID"
      "price_adjustment must be none" ++
    r.errorIf ((r.source.getD "").isEmpty) "MINUTE_SOURCE_INVALID"
      "contract ingestion source is required" ++
    r.errorIf r.tradeCount.isSome "MINUTE_TRADE_COUNT_INVALID" "trade_count must be null" ++
    slot.1 ++ minutePrices r ++
    r.errorIf (r.volume.any (decide <| · < 0)) "VOLUME_POSITIVE" "Volume must be non-negative" ++
    r.errorIf (r.turnover.any (decide <| ·.value < 0)) "TURNOVER_POSITIVE"
      "Turnover must be non-negative" ++
    r.errorIf (r.volume.isNone && !anomalyFields.contains "volume") "MINUTE_NULL_WITHOUT_ANOMALY"
      "null volume requires adapter anomaly evidence" ++
    r.errorIf (r.turnover.isNone && !anomalyFields.contains "turnover") "MINUTE_NULL_WITHOUT_ANOMALY"
      "null turnover requires adapter anomaly evidence",
    slot.2)

/-- A minute record that is not stopped has its times and prices, and the date of its bar. -/
theorem present_of_validateMinute {lang : Language} {seenKeys : List MinuteKey} {fields : List String}
    {r : MarketMinuteRecord} (h : blocking (validateMinute lang seenKeys fields r).1 = false) :
    ∃ start close, r.barStartTime = some start ∧ r.barEndTime.isSome = true ∧
      r.signalTime.isSome = true ∧ r.close = some close ∧ r.tradeDate = lang.taipeiDate start := by
  unfold validateMinute at h
  simp only [blocking_append, Bool.or_eq_false_iff] at h
  obtain ⟨⟨⟨⟨⟨⟨⟨⟨⟨⟨htimes, _⟩, _⟩, _⟩, _⟩, hslot⟩, hprices⟩, _⟩, _⟩, _⟩, _⟩ := h
  unfold minuteTimestamps at htimes
  split at htimes
  · rename_i start stop signal hstart hstop hsignal
    unfold minutePrices at hprices
    split at hprices
    · rename_i open_ high low close _ _ _ hclose
      refine ⟨start, close, hstart, by rw [hstop]; rfl, by rw [hsignal]; rfl, hclose, ?_⟩
      unfold minuteSlot at hslot
      rw [hstart] at hslot
      simp only [blocking_append, MarketMinuteRecord.blocking_errorIf, Bool.or_eq_false_iff] at hslot
      exact not_not.mp (of_decide_eq_false hslot.1)
    · cases hprices
  · cases htimes

end FinDB.Normalize
