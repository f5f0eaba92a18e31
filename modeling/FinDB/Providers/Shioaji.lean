import FinDB.Normalize.Ingress
import FinDB.Providers.Taifex

/-! # The Shioaji minute adapter

The bars of one symbol and one day are made a request of `market_minute.v1`. A timestamp is
a wall clock of Taipei in nanoseconds and labels the end of its minute. A volume or an amount
that is no number becomes an anomaly beside a null field, and the keys of the request are
digests of the identity of its snapshot. -/
namespace FinDB.Providers.Shioaji
open FinDB.Lib FinDB.Normalize

/-- What the adapter and the ingress take from the language beyond `Language`. -/
structure Platform extends Language where
  /-- `Decimal(text)` where that is a finite number. -/
  decimal : Text → Option Dec
  /-- `value.normalize()`, unless its exponent leaves the context. -/
  normalize : Dec → Option Dec
  /-- `value * 1000` in the context. -/
  thousandfold : Dec → Option Dec
  /-- A wall clock of `Asia/Taipei` in UTC. -/
  utc : UtcTime → UtcTime
  /-- Signs, points and ASCII digits are read as they stand. -/
  decimal_plain : ∀ cs, cs.all Dec.plainChar = true → decimal cs = Dec.read cs
  normalize_nonneg : ∀ d n, normalize d = some n → 0 ≤ d.value → 0 ≤ n.value
  normalize_mono : ∀ a b m n, normalize a = some m → normalize b = some n → a ≤ b → m ≤ n
  thousandfold_nonneg : ∀ d n, thousandfold d = some n → 0 ≤ d.value → 0 ≤ n.value
  /-- Stripping takes from the ends. -/
  strip_infix : ∀ s, (strip s).toList <:+: s.toList
  sha256_hex : ∀ s, isSha256 (sha256 s) = true

/-! ## Bars -/

/-- A value of a column: an `int`, another number or a text by its `str`, or anything else. -/
inductive Cell where
  | int (n : Int)
  | primitive (str : Text)
  | other
deriving DecidableEq, Repr

/-- `str(value)`. -/
def Cell.str : Cell → Text
  | .int n => writeInt n
  | .primitive str => str
  | .other => []

def Cell.isPrimitive : Cell → Bool
  | .other => false
  | _ => true

structure Bar where
  ts : Cell
  open_ : Cell
  high : Cell
  low : Cell
  close : Cell
  volume : Cell
  amount : Cell
deriving DecidableEq, Repr

/-- A column of the provider, and whether it is a tuple. -/
structure Vector where
  isTuple : Bool
  cells : List Cell

abbrev Kbars := List (String × Vector)

def columns : List String := ["ts", "Open", "High", "Low", "Close", "Volume", "Amount"]

def Kbars.cells (kbars : Kbars) (column : String) : List Cell :=
  (kbars.lookup column).elim [] Vector.cells

def Kbars.bar (kbars : Kbars) (index : Nat) : Bar :=
  let at_ column := (kbars.cells column).getD index .other
  ⟨at_ "ts", at_ "Open", at_ "High", at_ "Low", at_ "Close", at_ "Volume", at_ "Amount"⟩

def Kbars.bars (kbars : Kbars) : List Bar :=
  (List.range (kbars.cells "ts").length).map kbars.bar

/-! ## The request -/

structure Anomaly where
  symbol : String
  barStartTime : String
  field : AnomalyField
  rawValue : String
  rawValueSha256 : String
  reason : String
deriving DecidableEq

structure Row where
  symbol : String
  sourceSymbol : String
  tradeDate : String
  marketTimezone : String
  barStartTime : String
  barEndTime : String
  signalTime : String
  priceAdjustment : String
  open_ : Text
  high : Text
  low : Text
  close : Text
  volume : Option Nat
  turnover : Option Text
deriving DecidableEq

structure Usage where
  requestsUsed : Nat
  requestsLimit : Nat
deriving DecidableEq

structure Batch where
  dataDate : String
  deliveryMode : String
  declaredRecordCount : Nat
  coverageStartDate : String
  coverageEndDate : String
  sequence : Nat
  sequenceCount : Nat
  snapshotId : String
  dailyUpdateId : String
  universeId : String
  symbolsSha256 : String
  providerUsageBefore : Usage
  providerUsageAfter : Usage
  anomalies : List Anomaly
deriving DecidableEq

structure SymbolStatus where
  symbol : String
  outcome : MinuteSymbolOutcome
  reason : Option String
deriving DecidableEq

structure Request where
  datasetKey : String
  schemaId : String
  schemaVersion : Nat
  source : String
  requestKey : String
  idempotencyKey : String
  fetchedAt : String
  batch : Batch
  data : List Row
  symbolStatuses : List SymbolStatus
deriving DecidableEq

/-- The arguments. Dates and times are typed, and the fetch time is taken in UTC. -/
structure Input where
  kbars : Kbars
  datasetKey : String
  targetDate : CivilDate
  symbols : List String
  fetchedAt : UtcTime
  usageBeforeRequests : Int
  usageAfterRequests : Int
  snapshotId : String
  dailyUpdateId : String
  universeId : String
  sequence : Int
  sequenceCount : Int

/-! ## Checks -/

/-- `value.isascii() and value.replace(..).isalnum()`. -/
def alphanumeric (dropped : List Char) (s : String) : Bool :=
  let kept := s.toList.filter fun c => !dropped.contains c
  !kept.isEmpty && kept.all Char.isAlphanum

/-- The negation of the first check. -/
def validDatasetKey (s : String) : Bool := alphanumeric ['_'] s

/-- `_validate_symbol`. -/
def validSymbol (s : String) : Bool := decide (s.length ≤ 50) && alphanumeric ['.', '-'] s

/-- A stable identity. -/
def validIdentity (s : String) : Bool := decide (1 ≤ s.length ∧ s.length ≤ 100)

section
variable (lib : Platform)

/-- `_non_negative`. -/
def nonNegativeCell (cell : Cell) : Option Dec :=
  if cell.isPrimitive then (lib.decimal cell.str).filter fun d => decide (0 ≤ d.value) else none

/-- `_price`. -/
def price (cell : Cell) : Except String Dec :=
  need (nonNegativeCell lib cell) "kbars price is invalid"

/-- `_decimal_text`. -/
def decimalText (d : Dec) : Except String Text :=
  if d.value = 0 then .ok ['0']
  else (need (lib.normalize d) "decimal overflow").map Dec.fixedChars

/-- `_anomaly_value`. -/
def anomalyValue (cell : Cell) : Text :=
  if cell.isPrimitive then if cell.str = [] then "<empty>".toList else cell.str.take 500
  else "<non_primitive>".toList

/-- `_bar_end`: nanoseconds of a local wall clock. -/
def barEnd (cell : Cell) : Except String UtcTime :=
  match cell with
  | .int n =>
    if n < 0 then .error "kbars timestamp is invalid"
    else need (UtcTime.ofMicros (n / 1000)) "kbars timestamp is out of range"
  | _ => .error "kbars timestamp is invalid"

/-- `_utc_text`. -/
def utcText (t : UtcTime) : String := String.ofList t.zChars

/-- The end minus a minute, on the wall clock. -/
def barStart (end_ : UtcTime) : Except String UtcTime :=
  need (UtcTime.ofMicros (end_.toMicros - oneMinute)) "date value out of range"

def volumeOf (cell : Cell) : Except String (Option Nat) :=
  match nonNegativeCell lib cell with
  | none => .ok none
  | some lots => do
    let shares ← need (lib.thousandfold lots) "decimal overflow"
    ensure (shares.value.den == 1) "provider volume lots are not integral"
    return some shares.value.num.toNat

def turnoverOf (cell : Cell) : Except String (Option Text) :=
  match nonNegativeCell lib cell with
  | none => .ok none
  | some amount => (decimalText lib amount).map some

/-- The evidence for a field that is no number. -/
def anomalyOf (symbol start : String) (field : AnomalyField) (cell : Cell) : List Anomaly :=
  if (nonNegativeCell lib cell).isSome then []
  else
    let raw := String.ofList (anomalyValue cell)
    [⟨symbol, start, field, raw, lib.sha256 raw, "invalid_provider_numeric_value"⟩]

/-- A bar with its end: its row and its anomalies. -/
def buildBar (symbol : String) (target : CivilDate) (end_ : UtcTime) (bar : Bar) :
    Except String (Row × List Anomaly) := do
  let start ← barStart end_
  let open_ ← price lib bar.open_
  let high ← price lib bar.high
  let low ← price lib bar.low
  let close ← price lib bar.close
  ensure (!(decide (high < (open_.max low).max close) || decide ((open_.min high).min close < low)))
    "kbars OHLC bounds are invalid"
  let openText ← decimalText lib open_
  let highText ← decimalText lib high
  let lowText ← decimalText lib low
  let closeText ← decimalText lib close
  let volume ← volumeOf lib bar.volume
  let turnover ← turnoverOf lib bar.amount
  let startText := utcText (lib.utc start)
  let endText := utcText (lib.utc end_)
  return ({
    symbol
    sourceSymbol := symbol
    tradeDate := target.isoformat
    marketTimezone := "Asia/Taipei"
    barStartTime := startText
    barEndTime := endText
    signalTime := endText
    priceAdjustment := "none"
    open_ := openText
    high := highText
    low := lowText
    close := closeText
    volume
    turnover },
    anomalyOf lib symbol startText .volume bar.volume ++
      anomalyOf lib symbol startText .turnover bar.amount)

/-- Rows, anomalies and the ends so far. -/
structure Built where
  rows : List Row
  anomalies : List Anomaly
  seenEnds : List String

/-- One turn of the loop. -/
def addBar (symbol : String) (target : CivilDate) (built : Built) (bar : Bar) :
    Except String Built := do
  let end_ ← barEnd bar.ts
  ensure (end_.date == target) "kbars timestamp falls outside target date"
  ensure (!built.seenEnds.contains (utcText (lib.utc end_))) "duplicate kbars timestamp"
  let (row, anomalies) ← buildBar lib symbol target end_ bar
  return ⟨built.rows ++ [row], built.anomalies ++ anomalies,
    utcText (lib.utc end_) :: built.seenEnds⟩

/-! ## Identity -/

/-- `json.dumps` of the sequence identity, by the way it writes a string. -/
def identityText (write : String → List Char) (dataDate datasetKey : String) (sequence : Nat)
    (snapshotId : String) : String :=
  String.ofList ("\x7b\"data_date\":".toList ++ (write dataDate ++
    (",\"dataset_key\":".toList ++ (write datasetKey ++ (",\"sequence\":".toList ++
      (writeInt sequence ++ (",\"snapshot_id\":".toList ++ (write snapshotId ++
        "\x7d".toList))))))))

/-- `"\n".join(sorted(symbols))`. -/
def symbolsText (symbols : List String) : String :=
  String.intercalate "\n" (symbols.insertionSort (· ≤ ·))

/-! ## The request of one symbol -/

/-- The checks of the arguments; the symbol. -/
def checkArguments (input : Input) : Except String String := do
  ensure (validDatasetKey input.datasetKey) "dataset key is invalid"
  ensure (decide (input.symbols ≠ [] ∧ input.symbols.length ≤ 50 ∧ input.symbols.Nodup))
    "symbols are outside bounded scope"
  ensure (input.symbols.all validSymbol) "symbol is invalid"
  ensure (decide (0 ≤ input.usageBeforeRequests ∧ 0 ≤ input.usageAfterRequests))
    "usage snapshots must be non-negative integers"
  ensure (decide (input.usageBeforeRequests ≤ input.usageAfterRequests))
    "usage counter must be monotonic"
  ensure (decide (1 ≤ input.sequence ∧ 1 ≤ input.sequenceCount ∧ input.sequence ≤ 99999 ∧
    input.sequenceCount ≤ 99999 ∧ input.sequence ≤ input.sequenceCount)) "sequence is invalid"
  ensure ([input.snapshotId, input.dailyUpdateId, input.universeId].all validIdentity)
    "stable batch identity is invalid"
  ensure (columns.all fun c => (input.kbars.lookup c).isSome) "kbars columns are incomplete"
  ensure (columns.all fun c => (input.kbars.lookup c).all (·.isTuple))
    "kbars vectors must be normalized tuples"
  ensure (columns.all fun c => (input.kbars.cells c).length == (input.kbars.cells "ts").length)
    "kbars columns have inconsistent lengths"
  ensure (decide ((input.kbars.cells "ts").length ≤ 15000)) "kbars rows exceed bounded scope"
  ensure (decide ((input.kbars.cells "ts").length ≠ 0)) "empty kbars requires calendar evidence"
  match input.symbols with
  | [symbol] => return symbol
  | _ => .error "one symbol is required per kbars response"

/-- The request of the rows. -/
def requestOf (input : Input) (symbol : String) (built : Built) : Request :=
  let date := input.targetDate.isoformat
  let digest := lib.sha256
    (identityText writeString date input.datasetKey input.sequence.toNat input.snapshotId)
  let rows := built.rows.insertionSort fun a b => a.barEndTime ≤ b.barEndTime
  { datasetKey := input.datasetKey
    schemaId := "market_minute"
    schemaVersion := 1
    source := "shioaji"
    requestKey := "mmr:" ++ digest
    idempotencyKey := "mms:" ++ digest
    fetchedAt := utcText input.fetchedAt
    batch := {
      dataDate := date
      deliveryMode := "sequenced_snapshot"
      declaredRecordCount := rows.length
      coverageStartDate := date
      coverageEndDate := date
      sequence := input.sequence.toNat
      sequenceCount := input.sequenceCount.toNat
      snapshotId := input.snapshotId
      dailyUpdateId := input.dailyUpdateId
      universeId := input.universeId
      symbolsSha256 := lib.sha256 (symbolsText input.symbols)
      providerUsageBefore := ⟨input.usageBeforeRequests.toNat, 50⟩
      providerUsageAfter := ⟨input.usageAfterRequests.toNat, 50⟩
      anomalies := built.anomalies }
    data := rows
    symbolStatuses := [if rows.isEmpty then ⟨symbol, .expectedNoData, some "no_kbars"⟩
      else ⟨symbol, .data, none⟩] }

/-- `build_market_minute_request`. -/
def buildMarketMinuteRequest (input : Input) : Except String Request := do
  let symbol ← checkArguments input
  let built ← input.kbars.bars.foldlM (addBar lib symbol input.targetDate) ⟨[], [], []⟩
  return requestOf lib input symbol built

end

end FinDB.Providers.Shioaji
