import FinDB.Lib.Raise
import FinDB.Normalize.Ingress

/-! # Mapping

`map_fields` of the contract normalizers reads a stored document back into records. A
row without a date or a symbol is skipped. Readers take the form the ingress writes. -/
namespace FinDB.Normalize
open FinDB.Lib

/-! ## Context -/

/-- The part of a dataset's configuration the mapping reads. -/
structure MappingConfig where
  market : String
  assetClass : String
  currency : Option String
  ingestSource : Option String
deriving DecidableEq, Repr

structure ContractContext where
  market : String
  assetClass : String
  currency : Option String
  source : Option String
deriving DecidableEq, Repr

/-- A text that is not empty. -/
def given (s : Option String) : Option String := s.filter fun s => !s.isEmpty

/-- `_contract_context`. -/
def contractContext (lang : Language) (cfg : MappingConfig) : ContractContext where
  market := lang.upper (lang.strip cfg.market)
  assetClass := lang.lower (lang.strip cfg.assetClass)
  currency := (given cfg.currency).map fun c => lang.upper (lang.strip c)
  source := (given cfg.ingestSource).map fun s => lang.lower (lang.strip s)

/-- `_identifier_type`. -/
def identifierType (lang : Language) (source : Option String) : Option String :=
  source.map fun source =>
    if source.length ≤ 30 then source else "src_" ++ (lang.sha256 source).take 26

/-! ## Values -/

/-- `item.get(key)`; `None` reads as null. -/
def item (key : String) (fields : List (String × Json)) : Json := (getField key fields).getD .null

/-- `str(value)`. -/
def strOf (lang : Language) : Json → String
  | .str s => s
  | v => lang.str v

/-- `bool(value)`. -/
def truthy : Json → Bool
  | .null => false
  | .bool b => b
  | .int n => n != 0
  | .str s => !s.isEmpty
  | .arr xs => !xs.isEmpty
  | .obj fs => !fs.isEmpty

/-- `str(value) if value else None`. -/
def textOf (lang : Language) (v : Json) : Option String :=
  if truthy v then some (strOf lang v) else none

/-- What `Decimal` raises on a text that is no number. -/
inductive MappingError where
  | invalidOperation (text : String)
deriving DecidableEq, Repr

/-- `_parse_decimal`: `InvalidOperation` is no `ValueError` and escapes it. -/
def parseDecimal (lang : Language) : Json → Except MappingError (Option Dec)
  | .null => .ok none
  | .int n => .ok (some (Dec.ofInt n))
  | v =>
    match Dec.ofText (strOf lang v) with
    | some d => .ok (some d)
    | none => .error (.invalidOperation (strOf lang v))

/-- `_parse_int`. -/
def parseInt (lang : Language) : Json → Option Int
  | .int n => some n
  | .bool b => some (if b then 1 else 0)
  | .str s => lang.int s
  | .null | .arr _ | .obj _ => none

/-- `parse_datetime`, and whether the text has a zone. -/
def parseDatetime (text : String) : Option (UtcTime × Bool) :=
  let cs := text.toList
  let cs := if cs.getLast? = some 'Z' then cs.dropLast ++ ['+', '0', '0', ':', '0', '0'] else cs
  match CivilDate.fromisoformat (String.ofList cs) with
  | some date => some (⟨date, 0, 0, by decide⟩, false)
  | none => UtcTime.fromisoformat (String.ofList cs)

/-- `_parse_trade_date`: a time without a zone is in UTC. -/
def parseTradeDate (lang : Language) : Json → Option UtcTime
  | .null => none
  | v => (parseDatetime (strOf lang v)).map (·.1)

/-- `_parse_utc_timestamp`. -/
def parseUtcTimestamp (lang : Language) : Json → Option UtcTime
  | .null => none
  | v => (parseDatetime (strOf lang v)).bind fun t => if t.2 then some t.1 else none

/-- `_parse_local_trade_date`. -/
def parseLocalTradeDate (lang : Language) : Json → Option CivilDate
  | .null => none
  | v => CivilDate.fromisoformat (strOf lang v)

/-- `str(item.get("symbol") or "").strip().upper()`. -/
def symbolOf (lang : Language) (v : Json) : String :=
  lang.upper (lang.strip ((textOf lang v).getD ""))

/-! ## Rows -/

/-- The fields both normalizers fill alike. -/
def recordHead (lang : Language) (ctx : ContractContext) (fields : List (String × Json)) : RecordHead :=
  let identifierValue := (textOf lang (item "source_symbol" fields)).map lang.strip
  let currency := (textOf lang (item "currency" fields)).or (given ctx.currency)
  { symbol := symbolOf lang (item "symbol" fields)
    market := some ctx.market
    assetClass := some ctx.assetClass
    name := match item "name" fields with
      | .str name => some name
      | _ => none
    currency := currency.map fun c => lang.upper (lang.strip c)
    source := ctx.source
    rawData := some (.obj fields)
    identifierType := if (given identifierValue).isSome then identifierType lang ctx.source else none
    identifierValue }

/-- One row of `MarketEODContractNormalizer.map_fields`; `none` is a row that is skipped. -/
def mapEodItem (lang : Language) (ctx : ContractContext) :
    Json → Except MappingError (Option MappedRecord)
  | .obj fields =>
    match parseTradeDate lang (item "trade_date" fields) with
    | none => .ok none
    | some tradeDate =>
      if (symbolOf lang (item "symbol" fields)).isEmpty then .ok none
      else do
        let open_ ← parseDecimal lang (item "open" fields)
        let high ← parseDecimal lang (item "high" fields)
        let low ← parseDecimal lang (item "low" fields)
        let close ← parseDecimal lang (item "close" fields)
        let turnover ← parseDecimal lang (item "turnover" fields)
        .ok (some { recordHead lang ctx fields with
          tradeDate, open_, high, low, close, turnover
          volume := parseInt lang (item "volume" fields)
          totalTicks := parseInt lang (item "total_ticks" fields) })
  | _ => .ok none

/-- One row of `MarketMinuteContractNormalizer.map_fields`. -/
def mapMinuteItem (lang : Language) (ctx : ContractContext) :
    Json → Except MappingError (Option MarketMinuteRecord)
  | .obj fields =>
    match parseLocalTradeDate lang (item "trade_date" fields) with
    | none => .ok none
    | some tradeDate =>
      if (symbolOf lang (item "symbol" fields)).isEmpty then .ok none
      else do
        let open_ ← parseDecimal lang (item "open" fields)
        let high ← parseDecimal lang (item "high" fields)
        let low ← parseDecimal lang (item "low" fields)
        let close ← parseDecimal lang (item "close" fields)
        let turnover ← parseDecimal lang (item "turnover" fields)
        .ok (some { recordHead lang ctx fields with
          tradeDate, open_, high, low, close, turnover
          barStartTime := parseUtcTimestamp lang (item "bar_start_time" fields)
          barEndTime := parseUtcTimestamp lang (item "bar_end_time" fields)
          signalTime := parseUtcTimestamp lang (item "signal_time" fields)
          marketTimezone := (textOf lang (item "market_timezone" fields)).map lang.strip
          priceAdjustment := (textOf lang (item "price_adjustment" fields)).map lang.strip
          volume := parseInt lang (item "volume" fields)
          tradeCount := parseInt lang (item "trade_count" fields) })
  | _ => .ok none

/-- The rows of a document; anything but a list has none. -/
def dataItems : Json → List Json
  | .obj fields =>
    match item "data" fields with
    | .arr items => items
    | _ => []
  | _ => []

/-- `MarketEODContractNormalizer.map_fields`. -/
def mapEodFields (lang : Language) (cfg : MappingConfig) (raw : Json) :
    Except MappingError (List MappedRecord) :=
  ((dataItems raw).mapM (mapEodItem lang (contractContext lang cfg))).map (·.filterMap id)

/-- `MarketMinuteContractNormalizer.map_fields`. -/
def mapMinuteFields (lang : Language) (cfg : MappingConfig) (raw : Json) :
    Except MappingError (List MarketMinuteRecord) :=
  ((dataItems raw).mapM (mapMinuteItem lang (contractContext lang cfg))).map (·.filterMap id)

/-! ## Anomalies -/

/-- The anomalies of a batch. -/
def anomalyItems : Json → List Json
  | .obj fields =>
    match item "batch" fields with
    | .obj batch =>
      match item "anomalies" batch with
      | .arr anomalies => anomalies
      | _ => []
    | _ => []
  | _ => []

/-- The test of `_anomalies_for_record` on one anomaly. -/
def anomalyMatches (lang : Language) (symbol : String) (start : UtcTime) : Json → Bool
  | .obj anomaly =>
    symbolOf lang (item "symbol" anomaly) == symbol &&
      decide (parseUtcTimestamp lang (item "bar_start_time" anomaly) = some start)
  | _ => false

/-- `_anomalies_for_record`. -/
def anomaliesForRecord (lang : Language) (raw : Json) (r : MarketMinuteRecord) : List Json :=
  match r.barStartTime with
  | none => []
  | some start => (anomalyItems raw).filter (anomalyMatches lang r.symbol start)

/-- `{str(anomaly.get("field")) for anomaly in anomalies}`. -/
def anomalyFields (lang : Language) (anomalies : List Json) : List String :=
  anomalies.map fun
    | .obj anomaly => strOf lang (item "field" anomaly)
    | v => strOf lang v

/-! ## What is written reads back -/

section
variable (lang : Language)

@[simp] theorem parseDecimal_nullable (d : Option NonNegativeDecimal) :
    parseDecimal lang (nullable decimalJson d) = .ok (d.map (·.dec)) := by
  cases d with
  | none => rfl
  | some d =>
    have hread := d.dec.ofText_text
    simp only [nullable, decimalJson, parseDecimal, strOf, hread, Option.map_some]

@[simp] theorem parseDecimal_decimalJson (d : NonNegativeDecimal) :
    parseDecimal lang (decimalJson d) = .ok (some d.dec) := parseDecimal_nullable lang (some d)

@[simp] theorem parseInt_nullable (n : Option Nat) :
    parseInt lang (nullable natJson n) = n.map fun (n : Nat) => (n : Int) := by
  cases n <;> rfl

/-- A date ends with a digit. -/
theorem parseDatetime_date (d : CivilDate) :
    parseDatetime d.isoformat = some (⟨d, 0, 0, by decide⟩, false) := by
  have hlast : d.isoChars.getLast? ≠ some 'Z' := by
    intro h
    have hmem : 'Z' ∈ numeral 10 2 d.day := by
      unfold CivilDate.isoChars at h
      have hday : numeral 10 2 d.day ≠ [] :=
        fun hnil => by simpa [hnil] using length_numeral 10 2 d.day
      have hsplit : numeral 10 4 d.year ++ '-' :: (numeral 10 2 d.month ++ '-' :: numeral 10 2 d.day) =
          (numeral 10 4 d.year ++ '-' :: (numeral 10 2 d.month ++ ['-'])) ++ numeral 10 2 d.day := by
        simp
      rw [hsplit, List.getLast?_append_of_ne_nil _ hday] at h
      exact List.mem_of_getLast? h
    obtain ⟨digit, hd, heq⟩ := mem_numeral (by decide) hmem
    have hall : ∀ d < 10, 'Z' ≠ Nat.digitChar d := by decide
    exact hall digit hd heq
  have hread := d.fromisoformat_isoformat
  unfold parseDatetime
  unfold CivilDate.isoformat at hread ⊢
  rw [String.toList_ofList]
  simp only [if_neg hlast, hread]

theorem parseTradeDate_str (s : String) :
    parseTradeDate lang (.str s) = (parseDatetime s).map (·.1) := rfl

theorem parseUtcTimestamp_str (s : String) : parseUtcTimestamp lang (.str s) =
    (parseDatetime s).bind fun t => if t.2 then some t.1 else none := rfl

@[simp] theorem parseTradeDate_dateJson (d : CivilDate) :
    parseTradeDate lang (dateJson d) = some ⟨d, 0, 0, by decide⟩ := by
  unfold dateJson
  rw [parseTradeDate_str, parseDatetime_date]
  rfl

@[simp] theorem parseLocalTradeDate_dateJson (d : CivilDate) :
    parseLocalTradeDate lang (dateJson d) = some d := d.fromisoformat_isoformat

/-- `Z` stands for the offset of UTC. -/
theorem parseDatetime_time (t : UtcTime) :
    parseDatetime (String.ofList t.zChars) = some (t, true) := by
  have hlast : t.zChars.getLast? = some 'Z' := by
    unfold UtcTime.zChars
    rw [← List.append_assoc, List.getLast?_concat]
  have hiso : t.zChars.dropLast ++ ['+', '0', '0', ':', '0', '0'] = t.isoChars := by
    unfold UtcTime.zChars
    rw [← List.append_assoc, List.dropLast_concat, t.isoChars_eq, List.append_assoc]
  -- the time behind the date is more than a date reads
  have hdate : CivilDate.fromisoformat (String.ofList t.isoChars) = none := by
    unfold CivilDate.fromisoformat UtcTime.isoChars
    rw [String.toList_ofList, CivilDate.read_isoChars]
    rfl
  have htime := t.fromisoformat_isoformat
  unfold parseDatetime
  unfold UtcTime.isoformat at htime
  rw [String.toList_ofList]
  simp only [hlast, if_true, hiso, hdate, htime]

@[simp] theorem parseUtcTimestamp_timeJson (t : UtcTime) :
    parseUtcTimestamp lang (timeJson t) = some t := by
  unfold timeJson
  rw [parseUtcTimestamp_str, parseDatetime_time]
  rfl

theorem textOf_str {s : String} (h : s.isEmpty = false) : textOf lang (.str s) = some s := by
  simp only [textOf, truthy, h, Bool.not_false, if_true, strOf]

theorem BoundedText.nonempty {hi : Nat} (s : BoundedText 1 hi) : s.text.isEmpty = false := by
  have hlen := s.bounds.1
  rw [String.isEmpty_eq_false_iff]
  rintro h
  rw [h] at hlen
  cases hlen

/-- What the mapping makes of a symbol. -/
def normalizeSymbol (symbol : String) : String := lang.upper (lang.strip symbol)

@[simp] theorem symbolOf_text {hi : Nat} (s : BoundedText 1 hi) :
    symbolOf lang (.str s.text) = normalizeSymbol lang s.text := by
  unfold symbolOf
  rw [textOf_str lang s.nonempty]
  rfl

end

end FinDB.Normalize
