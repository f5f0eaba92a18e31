import FinDB.Providers.Taifex

/-! # FactSet rows

A row of the native snapshot is made a row of `market_eod.v2` for its member, or the member
is invalid. Prices are written with `str`, and the request is checked against the published
JSON Schema before it is delivered: a text the schema refuses stops the whole run. -/
namespace FinDB.Providers
open FinDB.Lib FinDB.Normalize

/-! ## Native rows -/

/-- A JSON value; a number and a container are known by their `str`. -/
inductive NativeValue where
  | null
  | bool (b : Bool)
  | text (t : Text)
  | number (written : Text)
  | container (written : Text)
deriving DecidableEq, Repr

/-- `str(value)`. -/
def NativeValue.str : NativeValue → Text
  | .null => "None".toList
  | .bool true => "True".toList
  | .bool false => "False".toList
  | .text t => t
  | .number written => written
  | .container written => written

abbrev NativeRow := List (String × NativeValue)

/-- `native.get(key)`. -/
def NativeRow.get (native : NativeRow) (key : String) : NativeValue := (native.lookup key).getD .null

def isUpperOrDigit (c : Char) : Bool := c.isDigit || decide ('A' ≤ c ∧ c ≤ 'Z')

/-- `^[A-Z0-9]{6}-L$`. -/
def isListingId (t : Text) : Bool :=
  (t.take 6).length == 6 && (t.take 6).all isUpperOrDigit && t.drop 6 == ['-', 'L']

/-- `[0-9]{5}`. -/
def isSymbol (t : Text) : Bool := t.length == 5 && t.all (·.isDigit)

/-- `[A-Z0-9]{3,10}`. -/
def isCurrency (t : Text) : Bool := decide (3 ≤ t.length ∧ t.length ≤ 10) && t.all isUpperOrDigit

/-! ## The contract row -/

structure ContractRow where
  symbol : Text
  sourceSymbol : Text
  tradeDate : String
  currency : Text
  open_ : Option Text
  high : Option Text
  low : Option Text
  close : Text
  volume : Option Nat
deriving DecidableEq, Repr

/-- The price texts of a row. -/
def ContractRow.prices (r : ContractRow) : List Text :=
  [r.open_, r.high, r.low, some r.close].filterMap id

section
variable {Value : Type} (lib : Script Value)

/-- A number that is finite and not negative. -/
def nativeNumber (value : NativeValue) : Except String (Option Dec) :=
  match value with
  | .null => .ok none
  | .bool _ => .error "FACTSET_VALUE_INVALID"
  | value => do
    let number ← need (lib.decimal value.str) "FACTSET_VALUE_INVALID"
    ensure (!decide (number.value < 0)) "FACTSET_VALUE_INVALID"
    return some number

/-- A price below `Decimal("1000000000000")`. -/
def nativePrice (value : NativeValue) : Except String (Option Text) := do
  match ← nativeNumber lib value with
  | none => return none
  | some number =>
    ensure (decide (number.value < 1000000000000)) "FACTSET_PRICE_OUT_OF_RANGE"
    return some number.chars

/-- An integer that the database takes. -/
def nativeVolume (value : NativeValue) : Except String (Option Nat) := do
  match ← nativeNumber lib value with
  | none => return none
  | some number =>
    ensure (integral number && decide (number.value ≤ 9223372036854775807))
      "FACTSET_VOLUME_NOT_INTEGRAL"
    return some number.value.num.toNat

/-- `contract_row`. -/
def contractRow (day : CivilDate) (native : NativeRow) (symbol listingId : Text) :
    Except String ContractRow := do
  ensure (native.get "fsym_id" == .text listingId &&
      native.get "price_date" == .text day.isoformat.toList && isListingId listingId &&
      isSymbol symbol) "FACTSET_ROW_IDENTITY_INVALID"
  let open_ ← nativePrice lib (native.get "price_open")
  let high ← nativePrice lib (native.get "price_high")
  let low ← nativePrice lib (native.get "price_low")
  let close ← nativePrice lib (native.get "price")
  let close ← need close "FACTSET_CLOSE_MISSING"
  let volume ← nativeVolume lib (native.get "volume")
  match native.get "currency" with
  | .text currency => do
    ensure (isCurrency currency) "FACTSET_CURRENCY_INVALID"
    return {
      symbol
      sourceSymbol := listingId
      tradeDate := day.isoformat
      currency
      open_
      high
      low
      close
      volume }
  | _ => .error "FACTSET_CURRENCY_INVALID"

end

/-! ## `market_eod.v2` -/

/-- What the published JSON Schema asks of the fields of a row. -/
def schemaAccepts (r : ContractRow) : Bool :=
  decide (1 ≤ r.symbol.length ∧ r.symbol.length ≤ 50) &&
    decide (1 ≤ r.sourceSymbol.length ∧ r.sourceSymbol.length ≤ 100) &&
    (CivilDate.fromisoformat r.tradeDate).isSome && isCurrency r.currency &&
    r.prices.all Dec.matchesDecimal

/-- A row that has passed the validators of the server: those of the first version without
the bounds between prices. -/
structure MarketEODRowV2 where
  symbol : BoundedText 1 50
  sourceSymbol : Option (BoundedText 1 100)
  tradeDate : CivilDate
  currency : Option CurrencyCode
  open_ : Option NonNegativeDecimal
  high : Option NonNegativeDecimal
  low : Option NonNegativeDecimal
  close : NonNegativeDecimal
  volume : Option Nat

/-- `Field(min_length=lo, max_length=hi)`. -/
def boundedText (lo hi : Nat) (t : Text) : Option (BoundedText lo hi) :=
  if h : lo ≤ (String.ofList t).length ∧ (String.ofList t).length ≤ hi then some ⟨String.ofList t, h⟩
  else none

/-- `CurrencyCode`. -/
def currencyCode (t : Text) : Option CurrencyCode :=
  (boundedText 3 10 t).bind fun b =>
    if h : b.text.toList.all (fun c => c.isDigit || decide ('A' ≤ c ∧ c ≤ 'Z')) = true then
      some ⟨b, h⟩
    else none

/-- `MarketEODRowV2.model_validate`. -/
def validateEodV2 {Value : Type} (lib : Script Value) (r : ContractRow) : Option MarketEODRowV2 := do
  let symbol ← boundedText 1 50 r.symbol
  let sourceSymbol ← boundedText 1 100 r.sourceSymbol
  let tradeDate ← CivilDate.fromisoformat r.tradeDate
  let currency ← currencyCode r.currency
  let open_ ← priceField lib r.open_
  let high ← priceField lib r.high
  let low ← priceField lib r.low
  let close ← priceField lib (some r.close)
  let close ← close
  return ⟨symbol, some sourceSymbol, tradeDate, some currency, open_, high, low, close, r.volume⟩

/-! ## The run -/

structure Member where
  memberKey : Text
  symbol : Text
  providerSymbol : Text
  currency : Text
  mapped : Bool
deriving DecidableEq, Repr

inductive Outcome where
  | mappingGap | missing | invalid
  | prepared (row : ContractRow)
deriving DecidableEq, Repr

/-- The rows that are indexed under a listing. -/
def selected (rows : List NativeRow) (listingId : Text) : List NativeRow :=
  rows.filter fun native => native.get "fsym_id" == .text listingId

/-- A container is no key of a dictionary. -/
def hashable (native : NativeRow) : Bool :=
  match native.get "fsym_id" with
  | .container _ => false
  | _ => true

section
variable {Value : Type} (lib : Script Value)

/-- The part of a member: built, or refused by its row alone. -/
def memberRow (day : CivilDate) (rows : List NativeRow) (m : Member) : Outcome :=
  if !m.mapped then .mappingGap
  else match selected rows m.providerSymbol with
    | [] => .missing
    | [native] =>
      match contractRow lib day native m.symbol m.providerSymbol with
      | .error _ => .invalid
      | .ok row => if row.currency = m.currency then .prepared row else .invalid
    | _ :: _ :: _ => .invalid

/-- `SourceAPIClient.prepare`, of the row in the request. -/
def prepareMember (o : Outcome) : Except String Outcome :=
  match o with
  | .prepared row => do
    ensure (schemaAccepts row) "ContractValidationError"
    return o
  | o => .ok o

/-- `FactSetEOD.run`: the index, then one member after the other. -/
def run (day : CivilDate) (rows : List NativeRow) (members : List Member) :
    Except String (List Outcome) := do
  ensure (rows.all hashable) "TypeError: unhashable type"
  members.mapM fun m => prepareMember (memberRow lib day rows m)

end

/-! ## What the row builder has checked -/

section
variable {Value : Type} {lib : Script Value} {day : CivilDate} {native : NativeRow}
  {symbol listingId : Text} {row : ContractRow} {value : NativeValue}

/-- `Decimal(str(value))` of a price cell. -/
def cellNumber (lib : Script Value) (native : NativeRow) (key : String) : Option Dec :=
  match native.get key with
  | .null => none
  | .bool _ => none
  | value => lib.decimal value.str

/-- The price cells are written without an exponent. -/
def PlainPrices (lib : Script Value) (native : NativeRow) : Prop :=
  ∀ key ∈ ["price_open", "price_high", "price_low", "price"], ∀ d ∈ cellNumber lib native key,
    d.isPlain = true

/-- A number that was read. -/
theorem nativeNumber_ok {key : String} {o : Option Dec}
    (h : nativeNumber lib (native.get key) = .ok o) :
    o = cellNumber lib native key ∧ ∀ d ∈ o, 0 ≤ d.value := by
  unfold cellNumber
  have hread : ∀ v : NativeValue,
      (need (lib.decimal v.str) "FACTSET_VALUE_INVALID" >>= fun number =>
        ensure (!decide (number.value < 0)) "FACTSET_VALUE_INVALID" >>= fun _ =>
          (pure (some number) : Except String (Option Dec))) = .ok o →
      o = lib.decimal v.str ∧ ∀ d ∈ o, 0 ≤ d.value := by
    intro v h
    obtain ⟨d, hd, h⟩ := ok_bind h
    obtain ⟨_, hsign, h⟩ := ok_bind h
    cases ok_pure h
    refine ⟨(need_ok.mp hd).symm, fun e he => ?_⟩
    cases he
    simpa using hsign
  cases hv : native.get key with
  | null =>
    rw [hv] at h
    cases h
    exact ⟨rfl, fun d hd => by cases hd⟩
  | bool b =>
    rw [hv] at h
    cases h
  | text t =>
    rw [hv] at h
    exact hread (.text t) h
  | number written =>
    rw [hv] at h
    exact hread (.number written) h
  | container written =>
    rw [hv] at h
    exact hread (.container written) h

theorem nativePrice_ok {key : String} {o : Option Text}
    (h : nativePrice lib (native.get key) = .ok o) :
    o = (cellNumber lib native key).map Dec.chars ∧ ∀ d ∈ cellNumber lib native key, 0 ≤ d.value := by
  unfold nativePrice at h
  obtain ⟨number, hnumber, h⟩ := ok_bind h
  obtain ⟨rfl, hnonneg⟩ := nativeNumber_ok hnumber
  refine ⟨?_, hnonneg⟩
  cases hcell : cellNumber lib native key with
  | none =>
    rw [hcell] at h
    exact ok_pure h
  | some d =>
    rw [hcell] at h
    obtain ⟨_, _, h⟩ := ok_bind h
    exact ok_pure h

/-- What is known of a row that was built. -/
structure Built (lib : Script Value) (day : CivilDate) (native : NativeRow)
    (symbol listingId : Text) (row : ContractRow) : Prop where
  symbol : row.symbol = symbol ∧ isSymbol symbol = true
  listing : row.sourceSymbol = listingId ∧ isListingId listingId = true
  tradeDate : row.tradeDate = day.isoformat
  currency : isCurrency row.currency = true
  open_ : row.open_ = (cellNumber lib native "price_open").map Dec.chars
  high : row.high = (cellNumber lib native "price_high").map Dec.chars
  low : row.low = (cellNumber lib native "price_low").map Dec.chars
  close : some row.close = (cellNumber lib native "price").map Dec.chars
  nonneg : ∀ key ∈ ["price_open", "price_high", "price_low", "price"],
    ∀ d ∈ cellNumber lib native key, 0 ≤ d.value

theorem contractRow_ok (h : contractRow lib day native symbol listingId = .ok row) :
    Built lib day native symbol listingId row := by
  unfold contractRow at h
  obtain ⟨_, hidentity, h⟩ := ok_bind h
  obtain ⟨_, hopen, h⟩ := ok_bind h
  obtain ⟨_, hhigh, h⟩ := ok_bind h
  obtain ⟨_, hlow, h⟩ := ok_bind h
  obtain ⟨_, hprice, h⟩ := ok_bind h
  obtain ⟨close, hclose, h⟩ := ok_bind h
  obtain ⟨volume, _, h⟩ := ok_bind h
  simp only [ensure_ok, Bool.and_eq_true] at hidentity
  split at h
  · obtain ⟨_, hcurrency, h⟩ := ok_bind h
    cases ok_pure h
    obtain ⟨rfl, nonnegOpen⟩ := nativePrice_ok hopen
    obtain ⟨rfl, nonnegHigh⟩ := nativePrice_ok hhigh
    obtain ⟨rfl, nonnegLow⟩ := nativePrice_ok hlow
    obtain ⟨rfl, nonnegClose⟩ := nativePrice_ok hprice
    refine ⟨⟨rfl, hidentity.2⟩, ⟨rfl, hidentity.1.2⟩, rfl, ensure_ok.mp hcurrency, rfl, rfl, rfl,
      (need_ok.mp hclose).symm, ?_⟩
    simp only [List.forall_mem_cons, List.not_mem_nil, false_implies, implies_true, and_true]
    exact ⟨nonnegOpen, nonnegHigh, nonnegLow, nonnegClose⟩
  · cases h

/-- The texts of a row match just when its numbers are plain. -/
theorem prices_match_iff (h : Built lib day native symbol listingId row) :
    (∀ t ∈ row.prices, Dec.matchesDecimal t = true) ↔ PlainPrices lib native := by
  have hone : ∀ o : Option Dec, (∀ t ∈ o.map Dec.chars, Dec.matchesDecimal t = true) ↔
      ∀ d ∈ o, d.isPlain = true := by
    intro o
    cases o with
    | none => simp
    | some d => simp [Dec.matchesDecimal_chars]
  have hmem : (∀ t ∈ row.prices, Dec.matchesDecimal t = true) ↔
      ∀ x ∈ [row.open_, row.high, row.low, some row.close], ∀ t ∈ x, Dec.matchesDecimal t = true := by
    unfold ContractRow.prices
    simp only [List.mem_filterMap, id]
    exact ⟨fun h x hx t ht => h t ⟨x, hx, ht⟩, fun h t ⟨x, hx, ht⟩ => h x hx t ht⟩
  rw [hmem, h.open_, h.high, h.low, h.close]
  unfold PlainPrices
  simp only [List.forall_mem_cons, List.not_mem_nil, false_implies, implies_true, and_true, hone]

/-! ## Acceptance -/

theorem boundedText_isSome {lo hi : Nat} {t : Text} (h : lo ≤ t.length ∧ t.length ≤ hi) :
    boundedText lo hi t = some ⟨String.ofList t, by rwa [String.length_ofList]⟩ := by
  unfold boundedText
  rw [dif_pos]

theorem length_listingId {t : Text} (h : isListingId t = true) : t.length = 8 := by
  unfold isListingId at h
  simp only [Bool.and_eq_true, beq_iff_eq] at h
  obtain ⟨⟨hlen, _⟩, hdrop⟩ := h
  have hrest := congrArg List.length hdrop
  rw [List.length_take] at hlen
  rw [List.length_drop] at hrest
  simp only [List.length_cons, List.length_nil] at hrest
  omega

theorem currencyCode_isSome {t : Text} (h : isCurrency t = true) : (currencyCode t).isSome = true := by
  unfold isCurrency at h
  rw [Bool.and_eq_true, decide_eq_true_iff] at h
  unfold currencyCode
  rw [boundedText_isSome h.1, Option.bind_some, dif_pos]
  · rfl
  · simp only [String.toList_ofList]
    exact h.2

/-- A plain price is read back. -/
theorem priceField_chars (lib : Script Value) {o : Option Dec} (hnonneg : ∀ d ∈ o, 0 ≤ d.value)
    (hplain : ∀ d ∈ o, d.isPlain = true) :
    ∃ field, priceField lib (o.map Dec.chars) = some field ∧ field.isSome = o.isSome := by
  cases o with
  | none => exact ⟨none, rfl, rfl⟩
  | some d =>
    have hd := hnonneg d rfl
    refine ⟨some ⟨d, hd⟩, ?_, rfl⟩
    simp only [priceField, Option.map_some, lib.decimal_plain _ (Dec.plain_chars (hplain d rfl)),
      Dec.read_chars, Option.bind_some, nonNegative, dif_pos hd]

theorem Built.lengths (h : Built lib day native symbol listingId row) :
    row.symbol.length = 5 ∧ row.sourceSymbol.length = 8 := by
  have hvalid := h.symbol.2
  unfold isSymbol at hvalid
  rw [Bool.and_eq_true, beq_iff_eq] at hvalid
  rw [h.symbol.1, h.listing.1]
  exact ⟨hvalid.1, length_listingId h.listing.2⟩

/-- The server takes what is written plainly. -/
theorem validateEodV2_isSome (h : Built lib day native symbol listingId row)
    (hplain : PlainPrices lib native) : (validateEodV2 lib row).isSome = true := by
  obtain ⟨hsymbol, hlisting⟩ := h.lengths
  obtain ⟨currency, hcurrency⟩ := Option.isSome_iff_exists.mp (currencyCode_isSome h.currency)
  have hfield : ∀ key ∈ ["price_open", "price_high", "price_low", "price"],
      ∃ field, priceField lib ((cellNumber lib native key).map Dec.chars) = some field ∧
        field.isSome = (cellNumber lib native key).isSome :=
    fun key hkey => priceField_chars lib (h.nonneg key hkey) (hplain key hkey)
  obtain ⟨o, hopen, _⟩ := hfield "price_open" (by simp)
  obtain ⟨hi, hhigh, _⟩ := hfield "price_high" (by simp)
  obtain ⟨lo, hlow, _⟩ := hfield "price_low" (by simp)
  obtain ⟨c, hclose, hsome⟩ := hfield "price" (by simp)
  have hgiven : (cellNumber lib native "price").isSome = true := by
    have hmap := congrArg Option.isSome h.close
    simpa using hmap.symm
  rw [hgiven] at hsome
  obtain ⟨close, rfl⟩ := Option.isSome_iff_exists.mp hsome
  unfold validateEodV2
  rw [boundedText_isSome (by omega), boundedText_isSome (by omega), h.tradeDate,
    CivilDate.fromisoformat_isoformat, hcurrency, h.open_, h.high, h.low, h.close, hopen, hhigh, hlow,
    hclose]
  rfl

/-- What the schema and the server make of a row that was built. -/
theorem contracted_iff (h : Built lib day native symbol listingId row) :
    ((∀ t ∈ row.prices, Dec.matchesDecimal t = true) ∧ (validateEodV2 lib row).isSome = true) ↔
      PlainPrices lib native := by
  rw [prices_match_iff h]
  exact ⟨And.left, fun hplain => ⟨hplain, validateEodV2_isSome h hplain⟩⟩

/-- The schema may only refuse the prices. -/
theorem schemaAccepts_iff (h : Built lib day native symbol listingId row) :
    schemaAccepts row = true ↔ PlainPrices lib native := by
  obtain ⟨hsymbol, hlisting⟩ := h.lengths
  unfold schemaAccepts
  rw [← prices_match_iff h, h.tradeDate, CivilDate.fromisoformat_isoformat, h.currency, hsymbol,
    hlisting]
  simp

/-! ## The run -/

/-- A row that its member delivers. -/
def Delivers (lib : Script Value) (day : CivilDate) (rows : List NativeRow) (m : Member)
    (native : NativeRow) : Prop :=
  m.mapped = true ∧ selected rows m.providerSymbol = [native] ∧
    ∃ row, contractRow lib day native m.symbol m.providerSymbol = .ok row ∧ row.currency = m.currency

theorem memberRow_cases (day : CivilDate) (rows : List NativeRow) (m : Member) :
    (∃ native row, Delivers lib day rows m native ∧
      Built lib day native m.symbol m.providerSymbol row ∧ memberRow lib day rows m = .prepared row) ∨
    ((∀ native, ¬ Delivers lib day rows m native) ∧
      ∀ row, memberRow lib day rows m ≠ .prepared row) := by
  unfold memberRow
  cases hm : m.mapped with
  | false =>
    refine Or.inr ⟨fun native h => ?_, fun row h => by cases h⟩
    have hmapped := h.1
    rw [hm] at hmapped
    cases hmapped
  | true =>
    simp only [Bool.not_true, Bool.false_eq_true, if_false]
    split
    · rename_i hsel
      refine Or.inr ⟨fun native h => ?_, fun row h => by cases h⟩
      have hone := h.2.1
      rw [hsel] at hone
      cases hone
    · rename_i native hsel
      have hsame : ∀ native', Delivers lib day rows m native' → native' = native := by
        intro native' h
        have hone := h.2.1
        rw [hsel] at hone
        cases hone
        rfl
      split
      · rename_i e he
        refine Or.inr ⟨fun native' h => ?_, fun row h => by cases h⟩
        obtain ⟨row, hrow, _⟩ := h.2.2
        rw [hsame native' h, he] at hrow
        cases hrow
      · rename_i row hrow
        split
        · rename_i hcurrency
          exact Or.inl ⟨native, row, ⟨hm, hsel, row, hrow, hcurrency⟩, contractRow_ok hrow, rfl⟩
        · rename_i hcurrency
          refine Or.inr ⟨fun native' h => ?_, fun row h => by cases h⟩
          obtain ⟨row', hrow', hsame'⟩ := h.2.2
          rw [hsame native' h, hrow] at hrow'
          cases hrow'
          exact hcurrency hsame'
    · rename_i hsel
      refine Or.inr ⟨fun native h => ?_, fun row h => by cases h⟩
      have hone := h.2.1
      rw [hsel] at hone
      cases hone

/-- A member stops the run just when the row it delivers is not plain. -/
theorem prepareMember_isOk (day : CivilDate) (rows : List NativeRow) (m : Member) :
    (∃ o, prepareMember (memberRow lib day rows m) = .ok o) ↔
      ∀ native, Delivers lib day rows m native → PlainPrices lib native := by
  rcases memberRow_cases day rows m with ⟨native, row, hd, hbuilt, hrow⟩ | ⟨hno, hrow⟩
  · rw [hrow]
    have hprepare : (∃ o, prepareMember (.prepared row) = .ok o) ↔ schemaAccepts row = true :=
      exists_ensure_bind.trans (and_iff_left ⟨_, rfl⟩)
    rw [hprepare, schemaAccepts_iff hbuilt]
    refine ⟨fun hplain native' h => ?_, fun hall => hall native hd⟩
    have hone := h.2.1
    rw [hd.2.1] at hone
    cases hone
    exact hplain
  · refine iff_of_true ?_ fun native h => absurd h (hno native)
    cases hm : memberRow lib day rows m with
    | prepared row => exact absurd hm (hrow row)
    | mappingGap => exact ⟨_, rfl⟩
    | missing => exact ⟨_, rfl⟩
    | invalid => exact ⟨_, rfl⟩

theorem run_isOk (day : CivilDate) (rows : List NativeRow) (members : List Member) :
    (∃ outcomes, run lib day rows members = .ok outcomes) ↔
      rows.all hashable = true ∧ ∀ m ∈ members, ∀ native, Delivers lib day rows m native →
        PlainPrices lib native := by
  have hmembers : (∃ outcomes, members.mapM (fun m => prepareMember (memberRow lib day rows m)) =
      .ok outcomes) ↔ ∀ m ∈ members, ∀ native, Delivers lib day rows m native →
        PlainPrices lib native := by
    rw [exists_mapM_iff]
    exact forall_congr' fun m => imp_congr_right fun _ => prepareMember_isOk day rows m
  rw [← hmembers]
  exact exists_ensure_bind

end

/-- A row with the close that a `DECIMAL(20,10)` column of zero gives. -/
def zeroRow : NativeRow :=
  [("fsym_id", .text "J3TRKQ-L".toList), ("price_date", .text "2024-01-02".toList),
    ("currency", .text "HKD".toList), ("price", .text "0E-10".toList)]

theorem nativePrice_zero :
    nativePrice plainScript (.text "0E-10".toList) = .ok (some "0E-10".toList) := by
  have hread : plainScript.decimal (NativeValue.text "0E-10".toList).str = some ⟨false, 0, -10⟩ := by
    rfl
  have hvalue : (⟨false, 0, -10⟩ : Dec).value = 0 := by simp [Dec.value]
  have hnumber : nativeNumber plainScript (.text "0E-10".toList) = .ok (some ⟨false, 0, -10⟩) := by
    change (need (plainScript.decimal (NativeValue.text "0E-10".toList).str) _ >>= fun _ => _) = _
    rw [hread]
    change (ensure (!decide ((⟨false, 0, -10⟩ : Dec).value < 0)) _ >>= fun _ => _) = _
    rw [hvalue, decide_eq_false (lt_irrefl 0)]
    rfl
  unfold nativePrice
  rw [hnumber]
  change (ensure (decide ((⟨false, 0, -10⟩ : Dec).value < 1000000000000)) _ >>= fun _ => _) = _
  rw [hvalue, decide_eq_true (by norm_num)]
  rfl

end FinDB.Providers
