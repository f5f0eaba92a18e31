import FinDB.Normalize.Clean

/-! # The TAIFEX report

A report is a list of rows, from JSON or from a CSV file, under English or Chinese column
names. The parser keeps the actual contracts of five products and emits them as delivery
rows. The ingress model of `futures_eod.v1` reads the rows again, with a grammar and
bounds of its own. -/
namespace FinDB.Providers
open FinDB.Lib FinDB.Normalize

abbrev Text := List Char

/-- What the adapters take from the language: string methods, `str` of a cell and
`Decimal(text)` where that is a finite number. -/
structure Script (Value : Type) where
  str : Value → Text
  strip : Text → Text
  upper : Text → Text
  decimal : Text → Option Dec
  /-- Signs, points and ASCII digits are read as they stand. -/
  decimal_plain : ∀ cs, cs.all Dec.plainChar = true → decimal cs = Dec.read cs

/-! ## The report -/

inductive Column where
  | date | contract | contractMonth | open_ | high | low | last | volume | settlementPrice
  | openInterest | tradingSession
deriving DecidableEq, Repr

/-- `_FIELDS`. -/
def Column.english : Column → String
  | .date => "Date"
  | .contract => "Contract"
  | .contractMonth => "ContractMonth(Week)"
  | .open_ => "Open"
  | .high => "High"
  | .low => "Low"
  | .last => "Last"
  | .volume => "Volume"
  | .settlementPrice => "SettlementPrice"
  | .openInterest => "OpenInterest"
  | .tradingSession => "TradingSession"

def Column.chinese : Column → String
  | .date => "交易日期"
  | .contract => "契約"
  | .contractMonth => "到期月份(週別)"
  | .open_ => "開盤價"
  | .high => "最高價"
  | .low => "最低價"
  | .last => "收盤價"
  | .volume => "成交量"
  | .settlementPrice => "結算價"
  | .openInterest => "未沖銷契約數"
  | .tradingSession => "交易時段"

def Column.all : List Column :=
  [.date, .contract, .contractMonth, .open_, .high, .low, .last, .volume, .settlementPrice,
    .openInterest, .tradingSession]

/-- A row of the report, by the names of its columns. -/
abbrev Source (Value : Type) := List (String × Value)

/-- What `csv.DictReader` or `json.loads` made of the report; `none` is no row. -/
structure Report (Value : Type) where
  columns : List String
  rows : List (Option (Source Value))

inductive Session where
  | regular | afterHours
deriving DecidableEq, Repr

def Session.name : Session → String
  | .regular => "regular"
  | .afterHours => "after_hours"

def sessionOf (text : Text) : Option Session :=
  if text = "一般".toList then some .regular
  else if text = "盤後".toList then some .afterHours
  else none

def products : List Text := ["TX".toList, "MTX".toList, "TMF".toList, "TE".toList, "TF".toList]

structure ReportRow where
  productCode : Text
  contractCode : Text
  contractMonth : Text
  tradeDate : String
  session : Session
  open_ : Option Text
  high : Option Text
  low : Option Text
  close : Option Text
  volume : Option Nat
  settlementPrice : Option Text
  openInterest : Option Nat
deriving DecidableEq, Repr

/-- `is_no_trade`. -/
def isNoTrade (r : ReportRow) : Bool :=
  r.volume == some 0 && r.open_.isNone && r.high.isNone && r.low.isNone && r.close.isNone &&
    r.settlementPrice.isNone && r.openInterest.isNone

/-! ## Contract months -/

/-- `([WF][1-5])?`. -/
def weekSuffix : Text → Bool
  | [] => true
  | [c, n] => (c == 'W' || c == 'F') && decide ('1' ≤ n ∧ n ≤ '5')
  | _ => false

/-- `[0-9]{6}([WF][1-5])?`: what the parser takes. -/
def isExpiry (m : Text) : Bool :=
  (m.take 6).length == 6 && (m.take 6).all (·.isDigit) && weekSuffix (m.drop 6)

/-- `0[1-9]|1[0-2]`. -/
def isMonth : Text → Bool
  | ['0', n] => decide ('1' ≤ n ∧ n ≤ '9')
  | ['1', n] => decide ('0' ≤ n ∧ n ≤ '2')
  | _ => false

/-- The two digits behind the year. -/
def monthDigits (m : Text) : Text := (m.drop 4).take 2

/-- `FUTURES_CONTRACT_MONTH_PATTERN`: what the ingress takes. -/
def isContractMonth (m : Text) : Bool :=
  (m.take 4).length == 4 && (m.take 4).all (·.isDigit) && isMonth (monthDigits m) &&
    weekSuffix (m.drop 6)

/-! ## The parser -/

section
variable {Value : Type} (lib : Script Value)

/-- `_value`. -/
def cell (row : Source Value) (key : Column) : Text :=
  lib.strip ((row.lookup key.english <|> row.lookup key.chinese).elim [] lib.str)

def blanks : List Text := ["".toList, "-".toList, "--".toList, "---".toList, "NULL".toList]

def integral (d : Dec) : Bool := d.value.den == 1

/-- `_numeric`, before it is written. -/
def numeric (value : Text) (integer : Bool) : Except String (Option Dec) :=
  if blanks.contains (lib.upper value) then .ok none
  else do
    let number ← need (lib.decimal (value.filter (· ≠ ','))) "TAIFEX numeric field is invalid"
    ensure (!(decide (number.value < 0) || (integer && !integral number)))
      "TAIFEX numeric field is invalid"
    return some number

def price (row : Source Value) (key : Column) : Except String (Option Text) :=
  (numeric lib (cell lib row key) false).map (·.map Dec.fixedChars)

def count (row : Source Value) (key : Column) : Except String (Option Nat) :=
  (numeric lib (cell lib row key) true).map (·.map (·.value.num.toNat))

def product (row : Source Value) : Text := cell lib row .contract

def expiry (row : Source Value) : Text := (cell lib row .contractMonth).filter (· ≠ ' ')

/-- An actual contract of one of the products. -/
def inScope (row : Source Value) : Bool :=
  products.contains (product lib row) && !(expiry lib row).contains '/'

/-- `target_date.strftime("%Y%m%d")`. -/
def compactDate (d : CivilDate) : Text := d.isoformat.toList.filter (· ≠ '-')

/-- The values of a row. -/
def readRow (target : CivilDate) (session : Session) (row : Source Value) :
    Except String ReportRow := do
  let open_ ← price lib row .open_
  let high ← price lib row .high
  let low ← price lib row .low
  let close ← price lib row .last
  let volume ← count lib row .volume
  let settlementPrice ← price lib row .settlementPrice
  let openInterest ← count lib row .openInterest
  return {
    productCode := product lib row
    contractCode := product lib row ++ ':' :: expiry lib row
    contractMonth := expiry lib row
    tradeDate := target.isoformat
    session
    open_
    high
    low
    close
    volume
    settlementPrice
    openInterest }

/-- The rows so far and their identities. -/
abbrev Parsed := List ReportRow × List (Text × Text × Session)

/-- One turn of the loop. -/
def parseRow (target : CivilDate) (st : Parsed) (source : Option (Source Value)) :
    Except String Parsed := do
  let row ← need source "TAIFEX report row is invalid"
  if !inScope lib row then return st
  else
    ensure (isExpiry (expiry lib row)) "TAIFEX actual expiry identity is invalid"
    ensure ((cell lib row .date).filter (fun c => c ≠ '/' ∧ c ≠ '-') == compactDate target)
      "TAIFEX report date differs from exchange attribution date"
    let session ← need (sessionOf (cell lib row .tradingSession)) "TAIFEX trading session is unknown"
    let identity := (product lib row, expiry lib row, session)
    ensure (!st.2.contains identity) "TAIFEX contract/session is duplicated"
    let value ← readRow lib target session row
    return (st.1 ++ [value], identity :: st.2)

/-- `key=lambda row: (row["product_code"], row["contract_code"], row["session"])`. -/
def rowLe (a b : ReportRow) : Bool :=
  decide (a.productCode < b.productCode) || (a.productCode == b.productCode &&
    (decide (a.contractCode < b.contractCode) || (a.contractCode == b.contractCode &&
      decide (a.session.name ≤ b.session.name))))

/-- `parse_report`, from the rows on. -/
def parseReport (target : CivilDate) (historical : Bool) (report : Report Value) :
    Except String (List ReportRow) := do
  ensure (!historical || Column.all.all fun c =>
      report.columns.contains c.english || report.columns.contains c.chinese)
    "TAIFEX historical report columns changed"
  ensure (!report.rows.isEmpty) "TAIFEX report is empty; no-trade requires source evidence"
  let result ← report.rows.foldlM (parseRow lib target) ([], [])
  ensure (!result.1.isEmpty) "TAIFEX report has no in-scope actual contracts"
  ensure (result.1.any (·.session == .regular))
    "TAIFEX report lacks regular-session rows; publication pending"
  return result.1.insertionSort fun a b => rowLe a b

end

/-! ## `futures_eod.v1` -/

/-- `^(TX|MTX|TMF|TE|TF):month$`. -/
def isContractCode (code : Text) : Bool :=
  products.any fun p => (p ++ [':']).isPrefixOf code && isContractMonth (code.drop (p.length + 1))

/-- `validate_prices`, of the prices. -/
def validatePrices (open_ high low close : Option NonNegativeDecimal) : Bool :=
  let dec := Option.map NonNegativeDecimal.dec
  let values := [dec open_, dec high, dec low, dec close]
  !belowAny (dec high) values && !aboveAny (dec low) values

/-- A row that has passed its validators. -/
structure FuturesEODRow where
  productCode : Text
  contractCode : Text
  contractMonth : Text
  tradeDate : CivilDate
  session : Session
  open_ : Option NonNegativeDecimal
  high : Option NonNegativeDecimal
  low : Option NonNegativeDecimal
  close : Option NonNegativeDecimal
  volume : Option Nat
  settlementPrice : Option NonNegativeDecimal
  openInterest : Option Nat
  product : products.contains productCode = true
  code : 2 ≤ contractCode.length ∧ contractCode.length ≤ 50 ∧ isContractCode contractCode = true
  month : 2 ≤ contractMonth.length ∧ contractMonth.length ≤ 10 ∧ isContractMonth contractMonth = true
  preserved : contractCode = productCode ++ ':' :: contractMonth
  prices : validatePrices open_ high low close = true
  observed : open_.isSome ∨ high.isSome ∨ low.isSome ∨ close.isSome ∨ settlementPrice.isSome ∨
    openInterest.isSome ∨ ∃ v ∈ volume, 0 < v

section
variable {Value : Type} (lib : Script Value)

/-- `NonNegativeDecimal`. -/
def nonNegative (d : Dec) : Option NonNegativeDecimal :=
  if h : 0 ≤ d.value then some ⟨d, h⟩ else none

/-- A price of a delivered row. -/
def priceField (text : Option Text) : Option (Option NonNegativeDecimal) :=
  match text with
  | none => some none
  | some cs => (lib.decimal cs).bind fun d => (nonNegative d).map some

/-- `FuturesEODRow.model_validate`. -/
def validateFutures (r : ReportRow) : Option FuturesEODRow := do
  let tradeDate ← CivilDate.fromisoformat r.tradeDate
  let open_ ← priceField lib r.open_
  let high ← priceField lib r.high
  let low ← priceField lib r.low
  let close ← priceField lib r.close
  let settlementPrice ← priceField lib r.settlementPrice
  if h : products.contains r.productCode = true ∧
      (2 ≤ r.contractCode.length ∧ r.contractCode.length ≤ 50 ∧ isContractCode r.contractCode = true) ∧
      (2 ≤ r.contractMonth.length ∧ r.contractMonth.length ≤ 10 ∧
        isContractMonth r.contractMonth = true) ∧
      r.contractCode = r.productCode ++ ':' :: r.contractMonth ∧
      validatePrices open_ high low close = true ∧
      (open_.isSome ∨ high.isSome ∨ low.isSome ∨ close.isSome ∨ settlementPrice.isSome ∨
        r.openInterest.isSome ∨ ∃ v ∈ r.volume, 0 < v) then
    some {
      productCode := r.productCode
      contractCode := r.contractCode
      contractMonth := r.contractMonth
      tradeDate
      session := r.session
      open_
      high
      low
      close
      volume := r.volume
      settlementPrice
      openInterest := r.openInterest
      product := h.1
      code := h.2.1
      month := h.2.2.1
      preserved := h.2.2.2.1
      prices := h.2.2.2.2.1
      observed := h.2.2.2.2.2 }
  else none

/-- A row that a delivery may hold. -/
def accepted (r : ReportRow) : Bool := (validateFutures lib r).isSome

end

/-! ## What a row of the report needs -/

section
variable {Value : Type} (lib : Script Value)

/-- The number in a cell, when there is one. -/
def given (row : Source Value) (key : Column) : Option Dec :=
  match numeric lib (cell lib row key) false with
  | .ok number => number
  | .error _ => none

/-- Nothing traded: a volume of zero, and no other number. -/
def NoTrade (row : Source Value) : Prop :=
  (∀ key ∈ [Column.open_, .high, .low, .last, .settlementPrice, .openInterest],
    given lib row key = none) ∧ ∃ v ∈ given lib row .volume, v.value = 0

/-- A row has some number, its prices lie between low and high, and its expiry is a month
unless nothing traded. -/
structure Deliverable (row : Source Value) : Prop where
  observed : ∃ key ∈ [Column.open_, .high, .low, .last, .settlementPrice, .openInterest, .volume],
    (given lib row key).isSome = true
  high : ∀ h ∈ given lib row .high, ∀ key ∈ [Column.open_, .low, .last],
    ∀ d ∈ given lib row key, d ≤ h
  low : ∀ l ∈ given lib row .low, ∀ key ∈ [Column.open_, .high, .last],
    ∀ d ∈ given lib row key, l ≤ d
  month : isMonth (monthDigits (expiry lib row)) = true ∨ NoTrade lib row

/-- The row that the parser makes of a source row. -/
def rowOf (target : CivilDate) (session : Session) (row : Source Value) : ReportRow where
  productCode := product lib row
  contractCode := product lib row ++ ':' :: expiry lib row
  contractMonth := expiry lib row
  tradeDate := target.isoformat
  session := session
  open_ := (given lib row .open_).map Dec.fixedChars
  high := (given lib row .high).map Dec.fixedChars
  low := (given lib row .low).map Dec.fixedChars
  close := (given lib row .last).map Dec.fixedChars
  volume := (given lib row .volume).map (·.value.num.toNat)
  settlementPrice := (given lib row .settlementPrice).map Dec.fixedChars
  openInterest := (given lib row .openInterest).map (·.value.num.toNat)

end

section
variable {Value : Type} {lib : Script Value} {row : Source Value} {key : Column}
  {target : CivilDate} {session : Session} {r : ReportRow}

/-- A number that is read is not negative, and integral where that is asked. -/
theorem numeric_ok {text : Text} {integer : Bool} {o : Option Dec}
    (h : numeric lib text integer = .ok o) :
    numeric lib text false = .ok o ∧ ∀ d ∈ o, 0 ≤ d.value ∧ (integer = true → integral d = true) := by
  unfold numeric at h ⊢
  split at h
  · rename_i hblank
    cases h
    rw [if_pos hblank]
    exact ⟨rfl, fun d hd => by cases hd⟩
  · rename_i hblank
    rw [if_neg hblank]
    obtain ⟨d, hd, h⟩ := ok_bind h
    obtain ⟨_, hcheck, h⟩ := ok_bind h
    cases ok_pure h
    simp only [ensure_ok, Bool.not_eq_true', Bool.or_eq_false_iff, decide_eq_false_iff_not] at hcheck
    refine ⟨?_, fun e he => ?_⟩
    · rw [hd]
      change (ensure _ _ >>= fun _ => _) = _
      simp only [Bool.false_and, Bool.or_false, decide_eq_false hcheck.1]
      rfl
    · cases he
      refine ⟨@Rat.not_lt d.value 0 |>.mp hcheck.1, fun hinteger => ?_⟩
      have hintegral := hcheck.2
      rw [hinteger] at hintegral
      simpa using hintegral

theorem price_ok {o : Option Text} (h : price lib row key = .ok o) :
    o = (given lib row key).map Dec.fixedChars ∧ ∀ d ∈ given lib row key, 0 ≤ d.value := by
  unfold price at h
  unfold given
  cases hn : numeric lib (cell lib row key) false with
  | error e =>
    rw [hn] at h
    cases h
  | ok d =>
    rw [hn] at h
    cases h
    exact ⟨rfl, fun d hd => ((numeric_ok hn).2 d hd).1⟩

theorem count_ok {o : Option Nat} (h : count lib row key = .ok o) :
    o = (given lib row key).map (·.value.num.toNat) ∧
      ∀ d ∈ given lib row key, 0 ≤ d.value ∧ integral d = true := by
  unfold count at h
  unfold given
  cases hn : numeric lib (cell lib row key) true with
  | error e =>
    rw [hn] at h
    cases h
  | ok d =>
    rw [hn] at h
    cases h
    obtain ⟨hfalse, hd⟩ := numeric_ok hn
    rw [hfalse]
    exact ⟨rfl, fun d hmem => ⟨(hd d hmem).1, (hd d hmem).2 rfl⟩⟩

/-- What the parser has checked of the numbers of a row. -/
structure Numbers (lib : Script Value) (row : Source Value) : Prop where
  nonneg : ∀ key ∈ [Column.open_, .high, .low, .last, .settlementPrice, .openInterest, .volume],
    ∀ d ∈ given lib row key, 0 ≤ d.value
  volume : ∀ d ∈ given lib row .volume, integral d = true

theorem readRow_ok (h : readRow lib target session row = .ok r) :
    r = rowOf lib target session row ∧ Numbers lib row := by
  unfold readRow at h
  obtain ⟨_, hopen, h⟩ := ok_bind h
  obtain ⟨_, hhigh, h⟩ := ok_bind h
  obtain ⟨_, hlow, h⟩ := ok_bind h
  obtain ⟨_, hlast, h⟩ := ok_bind h
  obtain ⟨_, hvolume, h⟩ := ok_bind h
  obtain ⟨_, hsettlement, h⟩ := ok_bind h
  obtain ⟨_, hinterest, h⟩ := ok_bind h
  cases ok_pure h
  obtain ⟨rfl, nonnegOpen⟩ := price_ok hopen
  obtain ⟨rfl, nonnegHigh⟩ := price_ok hhigh
  obtain ⟨rfl, nonnegLow⟩ := price_ok hlow
  obtain ⟨rfl, nonnegLast⟩ := price_ok hlast
  obtain ⟨rfl, countVolume⟩ := count_ok hvolume
  obtain ⟨rfl, nonnegSettlement⟩ := price_ok hsettlement
  obtain ⟨rfl, countInterest⟩ := count_ok hinterest
  refine ⟨rfl, ⟨?_, fun d hd => (countVolume d hd).2⟩⟩
  simp only [List.forall_mem_cons, List.not_mem_nil, false_implies, implies_true, and_true]
  exact ⟨nonnegOpen, nonnegHigh, nonnegLow, nonnegLast, nonnegSettlement,
    fun d hd => (countInterest d hd).1, fun d hd => (countVolume d hd).1⟩

/-! ## No trade -/

/-- A count of zero is the number zero. -/
theorem toNat_eq_zero {d : Dec} (h : 0 ≤ d.value) : d.value.num.toNat = 0 ↔ d.value = 0 := by
  have hnum : 0 ≤ d.value.num := Rat.num_nonneg.mpr h
  rw [← Rat.num_eq_zero]
  omega

theorem isNoTrade_rowOf (hn : Numbers lib row) :
    isNoTrade (rowOf lib target session row) = true ↔ NoTrade lib row := by
  have hvolume : (rowOf lib target session row).volume = some 0 ↔
      ∃ v ∈ given lib row .volume, v.value = 0 := by
    unfold rowOf
    simp only [Option.map_eq_some_iff]
    refine exists_congr fun d => and_congr_right fun hd => toNat_eq_zero ?_
    exact hn.nonneg .volume (by decide) d hd
  unfold isNoTrade NoTrade
  rw [← hvolume]
  simp only [Bool.and_eq_true, beq_iff_eq, List.forall_mem_cons, List.not_mem_nil, false_implies,
    implies_true, and_true]
  simp only [rowOf, Option.isNone_iff_eq_none, Option.map_eq_none_iff]
  tauto

/-! ## Acceptance -/

/-- Beside the month the two grammars are the same. -/
theorem isContractMonth_iff {m : Text} (h : isExpiry m = true) :
    isContractMonth m = true ↔ isMonth (monthDigits m) = true := by
  unfold isExpiry at h
  simp only [Bool.and_eq_true, beq_iff_eq, List.all_eq_true] at h
  obtain ⟨⟨hlen, hdigits⟩, hsuffix⟩ := h
  have hfour : (m.take 4).length = 4 := by
    rw [List.length_take] at hlen ⊢
    omega
  have hall : (m.take 4).all (·.isDigit) = true := by
    refine List.all_eq_true.mpr fun c hc => hdigits c ?_
    have htake : m.take 4 = (m.take 6).take 4 := by simp [List.take_take]
    rw [htake] at hc
    exact List.mem_of_mem_take hc
  unfold isContractMonth
  rw [hfour, hall, hsuffix]
  simp

theorem length_expiry {m : Text} (h : isExpiry m = true) : 6 ≤ m.length ∧ m.length ≤ 8 := by
  unfold isExpiry at h
  simp only [Bool.and_eq_true, beq_iff_eq] at h
  obtain ⟨⟨hlen, _⟩, hsuffix⟩ := h
  rw [List.length_take] at hlen
  have hdrop : (m.drop 6).length ≤ 2 := by
    unfold weekSuffix at hsuffix
    split at hsuffix
    · rename_i hnil
      rw [hnil]
      decide
    · rename_i hpair
      rw [hpair]
      exact le_rfl
    · cases hsuffix
  rw [List.length_drop] at hdrop
  omega

/-- The code of a product and a month. -/
theorem isContractCode_of {p m : Text} (hp : products.contains p = true)
    (hm : isContractMonth m = true) : isContractCode (p ++ ':' :: m) = true := by
  unfold isContractCode
  rw [List.any_eq_true]
  refine ⟨p, List.contains_iff_mem.mp hp, ?_⟩
  have hcode : p ++ ':' :: m = (p ++ [':']) ++ m := by simp
  have hdrop : ((p ++ [':']) ++ m).drop (p.length + 1) = m := by
    rw [List.drop_append_of_le_length (by simp)]
    simp
  rw [hcode, hdrop, hm, Bool.and_true]
  exact List.isPrefixOf_iff_prefix.mpr (List.prefix_append _ _)

theorem length_product {p : Text} (h : products.contains p = true) : 2 ≤ p.length ∧ p.length ≤ 3 := by
  have hall : ∀ q ∈ products, 2 ≤ q.length ∧ q.length ≤ 3 := by decide
  exact hall p (List.contains_iff_mem.mp h)

/-- A price that the parser writes is read with its value. -/
theorem priceField_fixed (lib : Script Value) {o : Option Dec} (h : ∀ d ∈ o, 0 ≤ d.value) :
    ∃ field, priceField lib (o.map Dec.fixedChars) = some field ∧
      field.map (·.dec) = o.map Dec.fixed := by
  cases o with
  | none => exact ⟨none, rfl, rfl⟩
  | some d =>
    have hvalue : 0 ≤ d.fixed.value := by
      rw [Dec.value_fixed]
      exact h d rfl
    refine ⟨some ⟨d.fixed, hvalue⟩, ?_, rfl⟩
    simp only [priceField, Option.map_some, lib.decimal_plain _ d.plain_fixedChars,
      Dec.read_fixedChars, Option.bind_some, nonNegative, dif_pos hvalue]

/-- The bounds of the ingress, on the numbers of the report. -/
theorem validatePrices_iff {o h l c : Option NonNegativeDecimal} {o' h' l' c' : Option Dec}
    (ho : o.map (·.dec) = o'.map Dec.fixed) (hh : h.map (·.dec) = h'.map Dec.fixed)
    (hl : l.map (·.dec) = l'.map Dec.fixed) (hc : c.map (·.dec) = c'.map Dec.fixed) :
    validatePrices o h l c = true ↔
      (∀ v ∈ h', ∀ x ∈ [o', l', c'], ∀ d ∈ x, d ≤ v) ∧ ∀ v ∈ l', ∀ x ∈ [o', h', c'], ∀ d ∈ x, v ≤ d := by
  have hmap : ∀ (x : Option Dec) (P : Dec → Prop), (∀ d ∈ x.map Dec.fixed, P d) ↔ ∀ d ∈ x, P d.fixed := by
    intro x P
    cases x <;> simp
  unfold validatePrices
  simp only [ho, hh, hl, hc, Bool.and_eq_true, Bool.not_eq_true', belowAny_eq_false,
    aboveAny_eq_false, List.forall_mem_cons, List.not_mem_nil, false_implies, implies_true,
    and_true, hmap, Dec.fixed_le_fixed]
  constructor
  · rintro ⟨hhigh, hlow⟩
    exact ⟨fun v hv => ⟨(hhigh v hv).1, (hhigh v hv).2.2⟩,
      fun v hv => ⟨(hlow v hv).1, (hlow v hv).2.1, (hlow v hv).2.2.2⟩⟩
  · rintro ⟨hhigh, hlow⟩
    refine ⟨fun v hv => ⟨(hhigh v hv).1, fun d hd => ?_, (hhigh v hv).2⟩,
      fun v hv => ⟨(hlow v hv).1, (hlow v hv).2.1, fun d hd => ?_, (hlow v hv).2.2⟩⟩
    · cases Option.mem_unique hv hd
      exact le_rfl
    · cases Option.mem_unique hv hd
      exact le_rfl

theorem isSome_dite {α : Type} {c : Prop} [Decidable c] {f : c → α} :
    (if h : c then some (f h) else none).isSome = true ↔ c := by
  split <;> simp_all

theorem isSome_of_map_eq {o : Option NonNegativeDecimal} {o' : Option Dec}
    (h : o.map (·.dec) = o'.map Dec.fixed) : o.isSome = o'.isSome := by
  have hsome := congrArg Option.isSome h
  simpa using hsome

/-- Some price, settlement or open interest, or a volume that is not zero. -/
def Observed (lib : Script Value) (row : Source Value) : Prop :=
  (∃ key ∈ [Column.open_, .high, .low, .last, .settlementPrice, .openInterest],
    (given lib row key).isSome = true) ∨ ∃ v ∈ given lib row .volume, v.value ≠ 0

/-- The prices lie between low and high. -/
def Bounded (lib : Script Value) (row : Source Value) : Prop :=
  (∀ h ∈ given lib row .high, ∀ key ∈ [Column.open_, .low, .last],
    ∀ d ∈ given lib row key, d ≤ h) ∧
  ∀ l ∈ given lib row .low, ∀ key ∈ [Column.open_, .high, .last], ∀ d ∈ given lib row key, l ≤ d

/-- What the ingress takes of the rows that the parser emits. -/
theorem accepted_rowOf (hn : Numbers lib row) (hproduct : products.contains (product lib row) = true)
    (hexpiry : isExpiry (expiry lib row) = true) :
    accepted lib (rowOf lib target session row) = true ↔
      isMonth (monthDigits (expiry lib row)) = true ∧ Bounded lib row ∧ Observed lib row := by
  obtain ⟨o, hopen, ho⟩ := priceField_fixed lib (hn.nonneg .open_ (by decide))
  obtain ⟨h, hhigh, hh⟩ := priceField_fixed lib (hn.nonneg .high (by decide))
  obtain ⟨l, hlow, hl⟩ := priceField_fixed lib (hn.nonneg .low (by decide))
  obtain ⟨c, hclose, hc⟩ := priceField_fixed lib (hn.nonneg .last (by decide))
  obtain ⟨s, hsettlement, hs⟩ := priceField_fixed lib (hn.nonneg .settlementPrice (by decide))
  have hvolume : (∃ v ∈ (rowOf lib target session row).volume, 0 < v) ↔
      ∃ v ∈ given lib row .volume, v.value ≠ 0 := by
    simp only [rowOf, Option.mem_def, Option.map_eq_some_iff]
    constructor
    · rintro ⟨_, ⟨d, hd, rfl⟩, hpos⟩
      refine ⟨d, hd, fun hzero => ?_⟩
      rw [(toNat_eq_zero (hn.nonneg .volume (by decide) d hd)).mpr hzero] at hpos
      cases hpos
    · rintro ⟨d, hd, hne⟩
      refine ⟨_, ⟨d, hd, rfl⟩, Nat.pos_of_ne_zero fun hzero => hne ?_⟩
      exact (toNat_eq_zero (hn.nonneg .volume (by decide) d hd)).mp hzero
  obtain ⟨hp2, hp3⟩ := length_product hproduct
  obtain ⟨hm6, hm8⟩ := length_expiry hexpiry
  unfold accepted validateFutures
  rw [show (rowOf lib target session row).tradeDate = target.isoformat from rfl,
    CivilDate.fromisoformat_isoformat]
  simp only [Option.bind_eq_bind, Option.bind_some]
  rw [show (rowOf lib target session row).open_ = (given lib row .open_).map Dec.fixedChars from rfl,
    show (rowOf lib target session row).high = (given lib row .high).map Dec.fixedChars from rfl,
    show (rowOf lib target session row).low = (given lib row .low).map Dec.fixedChars from rfl,
    show (rowOf lib target session row).close = (given lib row .last).map Dec.fixedChars from rfl,
    show (rowOf lib target session row).settlementPrice =
      (given lib row .settlementPrice).map Dec.fixedChars from rfl,
    hopen, hhigh, hlow, hclose, hsettlement]
  simp only [Option.bind_some]
  rw [isSome_dite, hvolume, validatePrices_iff ho hh hl hc, isSome_of_map_eq ho, isSome_of_map_eq hh,
    isSome_of_map_eq hl, isSome_of_map_eq hc, isSome_of_map_eq hs]
  have hinterest : (rowOf lib target session row).openInterest.isSome =
      (given lib row .openInterest).isSome := by simp [rowOf]
  have hobserved : ((given lib row .open_).isSome = true ∨ (given lib row .high).isSome = true ∨
      (given lib row .low).isSome = true ∨ (given lib row .last).isSome = true ∨
      (given lib row .settlementPrice).isSome = true ∨ (given lib row .openInterest).isSome = true ∨
      ∃ v ∈ given lib row .volume, v.value ≠ 0) ↔ Observed lib row := by
    unfold Observed
    simp only [List.exists_mem_cons_iff, List.not_mem_nil, false_and, exists_false, or_false, or_assoc]
  have hbounded : ((∀ v ∈ given lib row .high, ∀ x ∈ [given lib row .open_, given lib row .low,
        given lib row .last], ∀ d ∈ x, d ≤ v) ∧
      ∀ v ∈ given lib row .low, ∀ x ∈ [given lib row .open_, given lib row .high,
        given lib row .last], ∀ d ∈ x, v ≤ d) ↔ Bounded lib row := by
    unfold Bounded
    simp only [List.forall_mem_cons, List.not_mem_nil, false_implies, implies_true, and_true]
  rw [hinterest, hobserved, hbounded]
  simp only [rowOf]
  constructor
  · rintro ⟨_, _, hmonth, _, hprices, hobs⟩
    exact ⟨(isContractMonth_iff hexpiry).mp hmonth.2.2, hprices, hobs⟩
  · rintro ⟨hmonth, hprices, hobs⟩
    have hcontract := (isContractMonth_iff hexpiry).mpr hmonth
    refine ⟨hproduct, ⟨?_, ?_, isContractCode_of hproduct hcontract⟩, ⟨by omega, by omega, hcontract⟩,
      trivial, hprices, hobs⟩
    · simp only [List.length_append, List.length_cons]
      omega
    · simp only [List.length_append, List.length_cons]
      omega

/-- **One row.** It is no trade or can be delivered, just when it is `Deliverable`. -/
theorem deliverable_rowOf (hn : Numbers lib row)
    (hproduct : products.contains (product lib row) = true)
    (hexpiry : isExpiry (expiry lib row) = true) :
    isNoTrade (rowOf lib target session row) = true ∨
      accepted lib (rowOf lib target session row) = true ↔ Deliverable lib row := by
  rw [isNoTrade_rowOf hn, accepted_rowOf hn hproduct hexpiry]
  constructor
  · rintro (hnone | ⟨hmonth, hbounded, hobserved⟩)
    · have hblank := hnone.1
      obtain ⟨v, hv, _⟩ := hnone.2
      refine ⟨⟨.volume, by decide, Option.isSome_of_mem hv⟩, fun h hh => ?_, fun l hl => ?_,
        Or.inr hnone⟩
      · rw [hblank .high (by decide)] at hh
        cases hh
      · rw [hblank .low (by decide)] at hl
        cases hl
    · refine ⟨?_, hbounded.1, hbounded.2, Or.inl hmonth⟩
      rcases hobserved with ⟨key, hkey, hsome⟩ | ⟨v, hv, _⟩
      · exact ⟨key, List.mem_append_left [Column.volume] hkey, hsome⟩
      · exact ⟨.volume, by decide, Option.isSome_of_mem hv⟩
  · intro h
    by_cases hnone : NoTrade lib row
    · exact Or.inl hnone
    · refine Or.inr ⟨h.month.resolve_right hnone, ⟨h.high, h.low⟩, ?_⟩
      by_contra hobserved
      obtain ⟨hblank, hzero⟩ := not_or.mp hobserved
      refine hnone ⟨fun key hkey => ?_, ?_⟩
      · exact Option.not_isSome_iff_eq_none.mp fun hsome => hblank ⟨key, hkey, hsome⟩
      · obtain ⟨key, hkey, hsome⟩ := h.observed
        rcases List.mem_append.mp (show key ∈ [Column.open_, .high, .low, .last, .settlementPrice,
            .openInterest] ++ [Column.volume] from hkey) with hkey | hkey
        · exact absurd ⟨key, hkey, hsome⟩ hblank
        · cases List.mem_singleton.mp hkey
          obtain ⟨v, hv⟩ := Option.isSome_iff_exists.mp hsome
          exact ⟨v, hv, not_not.mp fun hne => hzero ⟨v, hv, hne⟩⟩

/-! ## The whole report -/

/-- A source row in scope and the row emitted for it. -/
def Emits (lib : Script Value) (target : CivilDate) (row : Source Value) (r : ReportRow) : Prop :=
  isExpiry (expiry lib row) = true ∧ ∃ session, readRow lib target session row = .ok r

/-- A turn skips its row or emits one for it. -/
theorem parseRow_ok {st st' : Parsed} {source : Option (Source Value)}
    (h : parseRow lib target st source = .ok st') :
    ∃ row, source = some row ∧ ((inScope lib row = false ∧ st' = st) ∨
      (inScope lib row = true ∧ ∃ r, Emits lib target row r ∧ st'.1 = st.1 ++ [r])) := by
  unfold parseRow at h
  obtain ⟨row, hrow, h⟩ := ok_bind h
  refine ⟨row, need_ok.mp hrow, ?_⟩
  split at h
  · rename_i hscope
    cases ok_pure h
    exact Or.inl ⟨by simpa using hscope, rfl⟩
  · rename_i hscope
    obtain ⟨_, hexpiry, h⟩ := ok_bind h
    obtain ⟨_, _, h⟩ := ok_bind h
    obtain ⟨session, _, h⟩ := ok_bind h
    obtain ⟨_, _, h⟩ := ok_bind h
    obtain ⟨r, hr, h⟩ := ok_bind h
    cases ok_pure h
    exact Or.inr ⟨by simpa using hscope, r, ⟨ensure_ok.mp hexpiry, session, hr⟩, rfl⟩

/-- **Run lemma.** The rows emitted are those of the source rows in scope. -/
theorem parseRows_ok (rows : List (Option (Source Value))) {st st' : Parsed}
    (h : rows.foldlM (parseRow lib target) st = .ok st') :
    (∀ r, r ∈ st'.1 → r ∈ st.1 ∨ ∃ row, some row ∈ rows ∧ inScope lib row = true ∧
      Emits lib target row r) ∧
    (∀ r ∈ st.1, r ∈ st'.1) ∧
    ∀ row, some row ∈ rows → inScope lib row = true → ∃ r ∈ st'.1, Emits lib target row r := by
  induction rows generalizing st with
  | nil =>
    cases ok_pure h
    exact ⟨fun r hr => Or.inl hr, fun r hr => hr, fun row hrow => absurd hrow List.not_mem_nil⟩
  | cons source rest ih =>
    rw [List.foldlM_cons] at h
    obtain ⟨mid, hstep, h⟩ := ok_bind h
    obtain ⟨hfrom, hkept, hto⟩ := ih h
    obtain ⟨row, rfl, ⟨hout, rfl⟩ | ⟨hin, r, hr, hmid⟩⟩ := parseRow_ok hstep
    · refine ⟨fun q hq => ?_, hkept, fun q hq hscope => ?_⟩
      · rcases hfrom q hq with hold | ⟨p, hp, hrest⟩
        · exact Or.inl hold
        · exact Or.inr ⟨p, List.mem_cons_of_mem _ hp, hrest⟩
      · rcases List.mem_cons.mp hq with heq | hq
        · cases heq
          rw [hout] at hscope
          cases hscope
        · exact hto q hq hscope
    · rw [hmid] at hfrom hkept
      refine ⟨fun q hq => ?_, fun q hq => hkept q (List.mem_append_left _ hq), fun q hq hscope => ?_⟩
      · rcases hfrom q hq with hold | ⟨p, hp, hrest⟩
        · rcases List.mem_append.mp hold with hold | hnew
          · exact Or.inl hold
          · cases List.mem_singleton.mp hnew
            exact Or.inr ⟨row, List.mem_cons_self, hin, hr⟩
        · exact Or.inr ⟨p, List.mem_cons_of_mem _ hp, hrest⟩
      · rcases List.mem_cons.mp hq with heq | hq
        · cases heq
          exact ⟨r, hkept r (List.mem_append_right _ (List.mem_singleton_self r)), hr⟩
        · exact hto q hq hscope

/-- **The report.** Every row that the parser returns is no trade or accepted by the
ingress, just when every source row in scope is `Deliverable`. -/
theorem parseReport_deliverable_iff (lib : Script Value) (target : CivilDate) (historical : Bool)
    (report : Report Value) (rows : List ReportRow)
    (h : parseReport lib target historical report = .ok rows) :
    (∀ r ∈ rows, isNoTrade r = true ∨ accepted lib r = true) ↔
      ∀ row, some row ∈ report.rows → inScope lib row = true → Deliverable lib row := by
  unfold parseReport at h
  obtain ⟨_, _, h⟩ := ok_bind h
  obtain ⟨_, _, h⟩ := ok_bind h
  obtain ⟨result, hresult, h⟩ := ok_bind h
  obtain ⟨_, _, h⟩ := ok_bind h
  obtain ⟨_, _, h⟩ := ok_bind h
  cases ok_pure h
  obtain ⟨hfrom, _, hto⟩ := parseRows_ok report.rows hresult
  have hone : ∀ row r, inScope lib row = true → Emits lib target row r →
      ((isNoTrade r = true ∨ accepted lib r = true) ↔ Deliverable lib row) := by
    rintro row r hscope ⟨hexpiry, session, hr⟩
    obtain ⟨rfl, hn⟩ := readRow_ok hr
    unfold inScope at hscope
    exact deliverable_rowOf hn (Bool.and_eq_true_iff.mp hscope).1 hexpiry
  have hmem : ∀ r, r ∈ result.1.insertionSort (fun a b => rowLe a b) ↔ r ∈ result.1 :=
    fun r => (List.perm_insertionSort _ _).mem_iff
  constructor
  · intro hall row hrow hscope
    obtain ⟨r, hr, hemits⟩ := hto row hrow hscope
    exact (hone row r hscope hemits).mp (hall r ((hmem r).mpr hr))
  · intro hall r hr
    rcases hfrom r ((hmem r).mp hr) with hold | ⟨row, hrow, hscope, hemits⟩
    · cases hold
    · exact (hone row r hscope hemits).mpr (hall row hrow hscope)

end

/-! ## A row without a number -/

/-- Plain texts: cells are their own text, and numbers are in plain ASCII. -/
def plainScript : Script Text where
  str cs := cs
  strip cs := (cs.dropWhile (· == ' ')).reverse.dropWhile (· == ' ') |>.reverse
  upper cs := cs.map Char.toUpper
  decimal := Dec.read
  decimal_plain _ _ := rfl

/-- A regular row of a TX contract with all its numbers blank. -/
def blankRow : Source Text :=
  [("Date", "20240102".toList), ("Contract", "TX".toList), ("ContractMonth(Week)", "202401".toList),
    ("Open", "-".toList), ("High", "-".toList), ("Low", "-".toList), ("Last", "-".toList),
    ("Volume", "-".toList), ("SettlementPrice", "-".toList), ("OpenInterest", "-".toList),
    ("TradingSession", "一般".toList)]

theorem newYear_valid :
    (1 ≤ 2024 ∧ 2024 ≤ 9999) ∧ (1 ≤ 1 ∧ 1 ≤ 12) ∧ 1 ≤ 2 ∧ 2 ≤ monthDays 2024 1 := by
  decide

def newYear : CivilDate := ⟨2024, 1, 2, newYear_valid⟩

/-- What the parser emits for it. -/
def blankReportRow : ReportRow where
  productCode := "TX".toList
  contractCode := "TX:202401".toList
  contractMonth := "202401".toList
  tradeDate := newYear.isoformat
  session := .regular
  open_ := none
  high := none
  low := none
  close := none
  volume := none
  settlementPrice := none
  openInterest := none

theorem parseReport_blankRow :
    parseReport plainScript newYear false ⟨[], [some blankRow]⟩ = .ok [blankReportRow] := by
  rfl

/-- It is no trade only with a volume of zero, and the ingress wants an observation. -/
theorem parseReport_not_deliverable :
    ¬ ∀ (report : Report Text) (rows : List ReportRow),
      parseReport plainScript newYear false report = .ok rows →
        ∀ r ∈ rows, isNoTrade r = true ∨ accepted plainScript r = true := by
  intro hall
  have h := hall _ _ parseReport_blankRow blankReportRow (List.mem_singleton_self _)
  revert h
  decide

theorem parseReport_deliverable_iff_blankRow :
    (∀ r ∈ [blankReportRow], isNoTrade r = true ∨ accepted plainScript r = true) ↔
      ∀ row, some row ∈ [some blankRow] → inScope plainScript row = true →
        Deliverable plainScript row :=
  parseReport_deliverable_iff plainScript newYear false ⟨[], [some blankRow]⟩ [blankReportRow]
    parseReport_blankRow

end FinDB.Providers
