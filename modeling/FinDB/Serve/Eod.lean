import Mathlib.Data.List.Dedup
import Mathlib.Data.Prod.Lex
import FinDB.Serve.Cursor

/-! # `list_eod`

Pages of daily rows, the latest date first and by id within a date. -/
namespace FinDB.Serve
open FinDB.Lib

variable {cfg : Config} {ν : Type}

/-- `_normalize(value)`. -/
def normalize (cfg : Config) (value : Option String) : Option String :=
  value.bind fun v =>
    let normalized := cfg.strip (cfg.nfkc v)
    if normalized.isEmpty then none else some normalized

/-- `_validate_dates(start_date, end_date)`. -/
def validateDates (startDate endDate : Option CivilDate) : Except Err Unit :=
  ensure (startDate.all fun s => endDate.all fun e => decide (s ≤ e))
    (.serve 422 "INVALID_DATE_RANGE" "start_date must not be after end_date")

/-- The bounds on a date that are given. -/
def inDates (startDate endDate : Option CivilDate) (d : CivilDate) : Bool :=
  (startDate.all fun s => decide (s ≤ d)) && endDate.all fun e => decide (d ≤ e)

structure EodQuery where
  instrumentId : Option Uuid128
  market : Option String
  symbolsRaw : Option String
  startDate : Option CivilDate
  endDate : Option CivilDate
  pageSize : Nat
deriving DecidableEq

/-! ## The scope of a query -/

/-- What the checks resolve a query to. -/
structure EodScope where
  market : Option String
  symbols : List String
  instrumentIds : Option (List Uuid128)
  marketPairs : List (String × String)
deriving DecidableEq

def EodQuery.normalizedMarket (cfg : Config) (q : EodQuery) : Option String :=
  (normalize cfg q.market).map cfg.upper

/-- The scope of one instrument. -/
def instrumentScope (db : Db cfg ν) (eodPairs : List (String × String)) (id : Uuid128) :
    Except Err EodScope := do
  let instrument ← need (db.instruments.find? id)
    (.serve 404 "INSTRUMENT_NOT_FOUND" "Instrument not found")
  ensure (eodPairs.contains instrument.pair)
    (.serve 422 "DATASET_NOT_AVAILABLE" "EOD data is not available for this instrument")
  return ⟨none, [], some [id], []⟩

def normalizedTokens (cfg : Config) (raw : String) : List String :=
  (raw.splitOn ",").map fun token => cfg.upper (cfg.strip (cfg.nfkc token))

/-- The symbols of a request, sorted and each once. -/
def parseSymbols (cfg : Config) (raw : String) : Except Err (List String) := do
  let rawTokens := raw.splitOn ","
  ensure (decide (rawTokens.length ≤ 50) && rawTokens.all fun token => !(cfg.strip token).isEmpty)
    (.serve 422 "INVALID_SYMBOLS" "symbols must contain 1 to 50 non-empty values")
  ensure ((normalizedTokens cfg raw).all fun token => !token.isEmpty)
    (.serve 422 "INVALID_SYMBOLS" "symbols contain an invalid value")
  return (normalizedTokens cfg raw).dedup.insertionSort (· ≤ ·)

/-- The instruments of the market a symbol names: `by_symbol[symbol]`. -/
def bySymbol (db : Db cfg ν) (market symbol : String) : List Instrument :=
  db.instruments.rows.filter fun i => i.market == market && i.symbol == symbol

/-- The instruments with EOD data the symbols name. -/
def matchSymbols (db : Db cfg ν) (eodPairs : List (String × String)) (market : String)
    (symbols : List String) : Except Err (List Uuid128) := do
  ensure (symbols.all fun symbol => !(bySymbol db market symbol).isEmpty)
    (.serve 404 "INSTRUMENT_NOT_FOUND" "One or more instruments were not found")
  ensure (symbols.all fun symbol =>
      (bySymbol db market symbol).any fun item => eodPairs.contains item.pair)
    (.serve 422 "DATASET_NOT_AVAILABLE" "EOD data is not available for one or more instruments")
  return symbols.flatMap fun symbol =>
    ((bySymbol db market symbol).filter fun item => eodPairs.contains item.pair).map
      (·.instrumentId)

/-- The scope of a market, or of some of its symbols. -/
def marketScope (db : Db cfg ν) (eodPairs : List (String × String)) (market : String)
    (symbolsRaw : Option String) : Except Err EodScope := do
  let marketPairs := eodPairs.filter fun pair => pair.1 == market
  ensure (!marketPairs.isEmpty)
    (.serve 422 "DATASET_NOT_AVAILABLE" "EOD data is not available for this market")
  match symbolsRaw with
  | none => return ⟨some market, [], none, marketPairs⟩
  | some raw => do
    let symbols ← parseSymbols cfg raw
    let instrumentIds ← matchSymbols db eodPairs market symbols
    return ⟨some market, symbols, some instrumentIds, marketPairs⟩

/-- Everything `list_eod` checks before it looks at the cursor. -/
def eodScope (db : Db cfg ν) (q : EodQuery) : Except Err EodScope := do
  validateDates q.startDate q.endDate
  ensure (q.instrumentId.isNone != (q.normalizedMarket cfg).isNone)
    (.serve 422 "QUERY_SCOPE_REQUIRED" "Provide instrument_id or market, but not both")
  ensure (q.instrumentId.isNone || q.symbolsRaw.isNone)
    (.serve 422 "INVALID_SYMBOLS" "symbols may only be used with market scope")
  let scopes ← db.scopes
  let eodPairs := pairs scopes .eod
  match q.instrumentId with
  | some id => instrumentScope db eodPairs id
  | none => do
    let market ← need (q.normalizedMarket cfg)
      (.serve 422 "QUERY_SCOPE_REQUIRED" "A non-empty market is required")
    marketScope db eodPairs market q.symbolsRaw

/-- `_eod_scope_payload(..)`. -/
def eodScopePayload (q : EodQuery) (scope : EodScope) : Json :=
  .obj [("end_date", jsonDate q.endDate), ("instrument_id", jsonText (q.instrumentId.map (·.text))),
    ("market", jsonText scope.market), ("start_date", jsonDate q.startDate),
    ("symbols", .arr (scope.symbols.map .str))]

/-! ## The cursor -/

def eodFields (scope : Json) (tradeDate : CivilDate) (instrumentId : Uuid128) :
    List (String × Json) :=
  [("kind", .str "eod"),
    ("last", .obj [("instrument_id", .str instrumentId.text),
      ("trade_date", .str tradeDate.isoformat)]),
    ("scope", scope), ("v", .int 1)]

/-- The row a cursor of this query stands behind. -/
def eodLast (scope : Json) (cursor : String) : Except Err (CivilDate × Uuid128) := do
  let payload ← decodeCursor cursor
  ensure (payload.map (·.1) == ["kind", "last", "scope", "v"] && isOne (getField "v" payload) &&
      getField "kind" payload == some (.str "eod") && getField "scope" payload == some scope)
    (invalidCursor "Cursor does not match this query")
  match getField "last" payload with
  | some (.obj last) => do
    ensure (last.map (·.1) == ["instrument_id", "trade_date"]) (invalidCursor "Cursor is invalid")
    let tradeDate ← need (asDate (getField "trade_date" last)) (invalidCursor "Cursor is invalid")
    let instrumentId ← need (asUuid (getField "instrument_id" last))
      (invalidCursor "Cursor is invalid")
    return (tradeDate, instrumentId)
  | _ => .error (invalidCursor "Cursor is invalid")

/-! ## The rows -/

/-- A daily row beside its instrument. -/
abbrev EodRow (ν : Type) := MarketDataEOD ν × Instrument

/-- `MarketDataEOD JOIN Instrument`. -/
def joinEod (db : Db cfg ν) : List (EodRow ν) :=
  db.eod.rows.filterMap fun r => (db.instruments.find? r.instrumentId).map fun i => (r, i)

/-- The filters of the scope. -/
def EodScope.selects (scope : EodScope) (row : EodRow ν) : Bool :=
  match scope.instrumentIds with
  | some ids => ids.contains row.1.instrumentId
  | none => scope.market == some row.2.market && scope.marketPairs.contains row.2.pair

/-- Behind the last row: an older date, or a later id of its date. -/
def eodBehind (last : Option (CivilDate × Uuid128)) (r : MarketDataEOD ν) : Bool :=
  last.all fun (lastDate, lastId) =>
    decide (r.tradeDate < lastDate) || (r.tradeDate == lastDate && decide (lastId < r.instrumentId))

/-- `ORDER BY trade_date DESC, instrument_id ASC`. -/
def eodKey (row : EodRow ν) : CivilDateᵒᵈ ×ₗ Uuid128 :=
  toLex (OrderDual.toDual row.1.tradeDate, row.1.instrumentId)

/-- The rows in scope, on any page. -/
def eodRows (db : Db cfg ν) (q : EodQuery) (scope : EodScope) : List (EodRow ν) :=
  (joinEod db).filter fun row =>
    scope.selects row && inDates q.startDate q.endDate row.1.tradeDate

/-- `list_eod(db, ..)`. -/
def listEod (q : EodQuery) (db : Db cfg ν) (cursor : Option String) :
    Except Err (ListResponse (EodRow ν)) := do
  let scope ← eodScope db q
  let last ← readCursor (eodLast (eodScopePayload q scope)) cursor
  let selected := (eodRows db q scope).filter fun row => eodBehind last row.1
  respond q.pageSize
    (fun row => .obj (eodFields (eodScopePayload q scope) row.1.tradeDate row.1.instrumentId))
    (orderLimit eodKey selected (q.pageSize + 1))

/-! ## Cursors of a query -/

theorem sorted_eodFields {scope : Json} (h : scope.Sorted) (tradeDate : CivilDate)
    (instrumentId : Uuid128) : (Json.obj (eodFields scope tradeDate instrumentId)).Sorted := by
  have hlast : (Json.obj [("instrument_id", .str instrumentId.text),
      ("trade_date", .str tradeDate.isoformat)]).Sorted :=
    sorted_obj (k := ["instrument_id", "trade_date"]) rfl (by decide) (by simp [SortedFields])
  exact sorted_obj (k := ["kind", "last", "scope", "v"]) rfl (by decide)
    ⟨sorted_str _, hlast, h, sorted_int _, trivial⟩

theorem sorted_eodScopePayload (q : EodQuery) (scope : EodScope) :
    (eodScopePayload q scope).Sorted :=
  sorted_obj (k := ["end_date", "instrument_id", "market", "start_date", "symbols"]) rfl
    (by decide) ⟨sorted_jsonDate _, sorted_jsonText _, sorted_jsonText _, sorted_jsonDate _,
      sorted_texts _, trivial⟩

/-- Dates and ids have one length. -/
theorem fits_eodFields {scope : Json} (d d' : CivilDate) (i i' : Uuid128)
    (h : Fits (.obj (eodFields scope d i))) : Fits (.obj (eodFields scope d' i')) := by
  have hlen : (Json.obj (eodFields scope d i)).dumps.length =
      (Json.obj (eodFields scope d' i')).dumps.length := by
    simp [eodFields, Json.dumps, dumpsFields]
  unfold Fits at h ⊢
  rwa [← hlen]

/-- The cursor behind a row stands for that row. -/
theorem eodLast_encoded {scope : Json} (hs : scope.Sorted) {d : CivilDate} {i : Uuid128}
    {cursor : String} (h : encodeCursor (.obj (eodFields scope d i)) = .ok cursor) :
    eodLast scope cursor = .ok (d, i) := by
  unfold eodLast
  rw [decodeCursor_encodeCursor (sorted_eodFields hs d i) h]
  simp [eodFields, getField, isOne, ensure, need, Except.bind, bind, pure, Except.pure]

/-! ## Queries that are accepted -/

theorem parseSymbols_mem {raw : String} {symbols : List String}
    (h : parseSymbols cfg raw = .ok symbols) (s : String) :
    s ∈ symbols ↔ s ∈ normalizedTokens cfg raw := by
  unfold parseSymbols at h
  obtain ⟨_, _, h⟩ := ok_bind h
  obtain ⟨_, _, h⟩ := ok_bind h
  rw [ok_pure h, List.mem_insertionSort, List.mem_dedup]

theorem mem_bySymbol {db : Db cfg ν} {market symbol : String} {i : Instrument} :
    i ∈ bySymbol db market symbol ↔ i ∈ db.instruments ∧ i.market = market ∧ i.symbol = symbol := by
  unfold bySymbol
  rw [List.mem_filter, Bool.and_eq_true, beq_iff_eq, beq_iff_eq]
  exact Iff.rfl

theorem mem_matchSymbols {db : Db cfg ν} {eodPairs : List (String × String)} {market : String}
    {symbols : List String} {ids : List Uuid128}
    (h : matchSymbols db eodPairs market symbols = .ok ids) {i : Instrument}
    (hi : i ∈ db.instruments) :
    i.instrumentId ∈ ids ↔ i.market = market ∧ i.symbol ∈ symbols ∧ i.pair ∈ eodPairs := by
  unfold matchSymbols at h
  obtain ⟨_, _, h⟩ := ok_bind h
  obtain ⟨_, _, h⟩ := ok_bind h
  rw [ok_pure h]
  simp only [List.mem_flatMap, List.mem_map, List.mem_filter, mem_bySymbol, List.contains_iff_mem]
  constructor
  · rintro ⟨symbol, hsymbol, j, ⟨⟨hj, hmarket, rfl⟩, hpair⟩, hid⟩
    rw [← Table.eq_of_key hj hi hid]
    exact ⟨hmarket, hsymbol, hpair⟩
  · rintro ⟨hmarket, hsymbol, hpair⟩
    exact ⟨i.symbol, hsymbol, i, ⟨⟨hi, hmarket, rfl⟩, hpair⟩, rfl⟩

/-- Instruments that are still there answer for their symbols. -/
theorem matchSymbols_grows {s t : Db cfg ν} (hg : Grows s t) {eodPairs : List (String × String)}
    {market : String} {symbols : List String} {ids : List Uuid128}
    (h : matchSymbols s eodPairs market symbols = .ok ids) :
    ∃ ids', matchSymbols t eodPairs market symbols = .ok ids' := by
  have hmem : ∀ symbol, ∀ i ∈ bySymbol s market symbol, i ∈ bySymbol t market symbol :=
    fun symbol i hi => mem_bySymbol.mpr ⟨hg.instruments i (mem_bySymbol.mp hi).1, (mem_bySymbol.mp hi).2⟩
  unfold matchSymbols at h ⊢
  obtain ⟨_, hfound, h⟩ := ok_bind h
  obtain ⟨_, hactive, h⟩ := ok_bind h
  rw [ensure_ok, List.all_eq_true] at hfound hactive
  have hfound' : symbols.all (fun symbol => !(bySymbol t market symbol).isEmpty) = true := by
    refine List.all_eq_true.mpr fun symbol hsymbol => ?_
    have hne := hfound symbol hsymbol
    rw [Bool.not_eq_true', List.isEmpty_eq_false_iff_exists_mem] at hne ⊢
    obtain ⟨i, hi⟩ := hne
    exact ⟨i, hmem symbol i hi⟩
  have hactive' : symbols.all (fun symbol => (bySymbol t market symbol).any fun item =>
      eodPairs.contains item.pair) = true := by
    refine List.all_eq_true.mpr fun symbol hsymbol => ?_
    obtain ⟨i, hi, hpair⟩ := List.any_eq_true.mp (hactive symbol hsymbol)
    exact List.any_eq_true.mpr ⟨i, hmem symbol i hi, hpair⟩
  rw [(ensure_ok (u := ())).mpr hfound', (ensure_ok (u := ())).mpr hactive']
  exact ⟨_, rfl⟩

/-- What a market scope selects. -/
theorem marketScope_ok {db : Db cfg ν} {eodPairs : List (String × String)} {market : String}
    {symbolsRaw : Option String} {scope : EodScope}
    (h : marketScope db eodPairs market symbolsRaw = .ok scope) {row : EodRow ν}
    (hi : row.2 ∈ db.instruments) (hid : row.2.instrumentId = row.1.instrumentId) :
    scope.selects row = true ↔ row.2.market = market ∧ row.2.pair ∈ eodPairs ∧
      ∀ raw, symbolsRaw = some raw → row.2.symbol ∈ normalizedTokens cfg raw := by
  unfold marketScope at h
  obtain ⟨_, _, h⟩ := ok_bind h
  cases symbolsRaw with
  | none =>
    rw [ok_pure h]
    change (some market == some row.2.market &&
      (eodPairs.filter fun pair => pair.1 == market).contains row.2.pair) = true ↔ _
    rw [Bool.and_eq_true, beq_iff_eq, List.contains_iff_mem, List.mem_filter, beq_iff_eq]
    constructor
    · rintro ⟨heq, hpair, _⟩
      exact ⟨(Option.some.inj heq).symm, hpair, fun _ he => by cases he⟩
    · rintro ⟨hmarket, hpair, _⟩
      exact ⟨congrArg some hmarket.symm, hpair, hmarket⟩
  | some raw =>
    obtain ⟨symbols, hsymbols, h⟩ := ok_bind h
    obtain ⟨ids, hids, h⟩ := ok_bind h
    rw [ok_pure h]
    change ids.contains row.1.instrumentId = true ↔ _
    rw [List.contains_iff_mem, ← hid, mem_matchSymbols hids hi, parseSymbols_mem hsymbols]
    constructor
    · rintro ⟨hmarket, hsymbol, hpair⟩
      exact ⟨hmarket, hpair, fun _ he => Option.some.inj he ▸ hsymbol⟩
    · rintro ⟨hmarket, hpair, hsymbol⟩
      exact ⟨hmarket, hsymbol raw rfl, hpair⟩

theorem marketScope_grows {s t : Db cfg ν} (hg : Grows s t) {eodPairs : List (String × String)}
    {market : String} {symbolsRaw : Option String} {scope : EodScope}
    (h : marketScope s eodPairs market symbolsRaw = .ok scope) :
    ∃ scope', marketScope t eodPairs market symbolsRaw = .ok scope' ∧
      scope'.market = scope.market ∧ scope'.symbols = scope.symbols := by
  unfold marketScope at h ⊢
  obtain ⟨_, hpairs, h⟩ := ok_bind h
  dsimp only
  rw [hpairs]
  cases symbolsRaw with
  | none =>
    rw [ok_pure h]
    exact ⟨_, rfl, rfl, rfl⟩
  | some raw =>
    obtain ⟨symbols, hsymbols, h⟩ := ok_bind h
    obtain ⟨ids, hids, h⟩ := ok_bind h
    obtain ⟨ids', hids'⟩ := matchSymbols_grows hg hids
    rw [ok_pure h]
    dsimp only
    rw [hsymbols]
    refine ⟨⟨some market, symbols, some ids', eodPairs.filter fun pair => pair.1 == market⟩, ?_, rfl,
      rfl⟩
    change (matchSymbols t eodPairs market symbols >>= _) = _
    rw [hids']
    rfl

/-- A row the query is about: of the instrument, or of the market and symbols, it
names, within its dates, and of a dataset that is active. -/
def EodInScope (q : EodQuery) (db : Db cfg ν) (row : EodRow ν) : Prop :=
  (row.1 ∈ db.eod ∧ row.2 ∈ db.instruments ∧ row.2.instrumentId = row.1.instrumentId) ∧
  (∃ scopes, db.scopes = .ok scopes ∧ row.2.pair ∈ pairs scopes .eod) ∧
  (∀ id, q.instrumentId = some id → row.1.instrumentId = id) ∧
  (∀ market, q.normalizedMarket cfg = some market → row.2.market = market) ∧
  (∀ raw, q.symbolsRaw = some raw → row.2.symbol ∈ normalizedTokens cfg raw) ∧
  inDates q.startDate q.endDate row.1.tradeDate = true

theorem mem_joinEod {db : Db cfg ν} {row : EodRow ν} :
    row ∈ joinEod db ↔
      row.1 ∈ db.eod ∧ row.2 ∈ db.instruments ∧ row.2.instrumentId = row.1.instrumentId := by
  obtain ⟨r, i⟩ := row
  unfold joinEod
  rw [List.mem_filterMap]
  constructor
  · rintro ⟨r', hr', hjoin⟩
    obtain ⟨i', hi', heq⟩ := Option.map_eq_some_iff.mp hjoin
    cases heq
    exact ⟨hr', Table.find?_eq_some.mp hi'⟩
  · rintro ⟨hr, hi, hid⟩
    exact ⟨r, hr, Option.map_eq_some_iff.mpr ⟨i, Table.find?_eq_some.mpr ⟨hi, hid⟩, rfl⟩⟩

/-- The rows of an accepted query are those in its scope. -/
theorem mem_eodRows {db : Db cfg ν} {q : EodQuery} {scope : EodScope}
    (h : eodScope db q = .ok scope) (row : EodRow ν) :
    row ∈ eodRows db q scope ↔ EodInScope q db row := by
  unfold eodScope at h
  obtain ⟨_, _, h⟩ := ok_bind h
  obtain ⟨_, hone, h⟩ := ok_bind h
  obtain ⟨_, hsymbols, h⟩ := ok_bind h
  obtain ⟨scopes, hscopes, h⟩ := ok_bind h
  rw [ensure_ok, bne_iff_ne] at hone
  rw [ensure_ok, Bool.or_eq_true] at hsymbols
  unfold eodRows EodInScope
  rw [List.mem_filter, mem_joinEod, Bool.and_eq_true]
  refine and_congr_right fun hrow => ?_
  obtain ⟨_, hi, hid⟩ := hrow
  cases hq : q.instrumentId with
  | some id =>
    rw [hq] at h hone hsymbols
    dsimp only at h
    unfold instrumentScope at h
    obtain ⟨i, hfind, h⟩ := ok_bind h
    obtain ⟨_, hpair, h⟩ := ok_bind h
    rw [ok_pure h]
    have hmarket : q.normalizedMarket cfg = none := by
      cases hm : q.normalizedMarket cfg with
      | none => rfl
      | some m => exact absurd (by rw [hm]; rfl) hone
    have hraw : q.symbolsRaw = none := by simpa using hsymbols
    change [id].contains row.1.instrumentId = true ∧ _ ↔ _
    rw [List.contains_iff_mem, List.mem_singleton, hmarket, hraw]
    constructor
    · rintro ⟨heq, hdates⟩
      obtain ⟨hfound, hkey⟩ := Table.find?_eq_some.mp (need_ok.mp hfind)
      have hsame : row.2 = i := Table.eq_of_key hi hfound (by rw [hid, heq, hkey])
      refine ⟨⟨scopes, hscopes, ?_⟩, fun _ he => Option.some.inj he ▸ heq, (fun _ he => by cases he),
        (fun _ he => by cases he), hdates⟩
      rw [hsame]
      exact List.contains_iff_mem.mp (ensure_ok.mp hpair)
    · rintro ⟨_, heq, _, _, hdates⟩
      exact ⟨heq id rfl, hdates⟩
  | none =>
    rw [hq] at h
    dsimp only at h
    obtain ⟨market, hmarket, h⟩ := ok_bind h
    rw [marketScope_ok h hi hid, need_ok.mp hmarket]
    constructor
    · rintro ⟨⟨heq, hpair, hraw⟩, hdates⟩
      exact ⟨⟨scopes, hscopes, hpair⟩, (fun _ he => by cases he),
        fun _ he => Option.some.inj he ▸ heq, hraw, hdates⟩
    · rintro ⟨⟨scopes', hscopes', hpair⟩, _, heq, hraw, hdates⟩
      cases hscopes.symm.trans hscopes'
      exact ⟨⟨heq market rfl, hpair, hraw⟩, hdates⟩

/-- A query that was accepted is accepted later, and has the same cursors. -/
theorem eodScope_grows {s t : Db cfg ν} (hg : Grows s t) {q : EodQuery} {scope : EodScope}
    (h : eodScope s q = .ok scope) :
    ∃ scope', eodScope t q = .ok scope' ∧ eodScopePayload q scope' = eodScopePayload q scope := by
  unfold eodScope at h ⊢
  obtain ⟨_, hdates, h⟩ := ok_bind h
  obtain ⟨_, hone, h⟩ := ok_bind h
  obtain ⟨_, hsymbols, h⟩ := ok_bind h
  obtain ⟨scopes, hscopes, h⟩ := ok_bind h
  rw [hdates, hone, hsymbols, hg.scopes, hscopes]
  change ∃ scope', (match q.instrumentId with | some id => _ | none => _) = Except.ok scope' ∧ _
  cases hq : q.instrumentId with
  | some id =>
    rw [hq] at h
    dsimp only at h ⊢
    unfold instrumentScope at h ⊢
    obtain ⟨i, hfind, h⟩ := ok_bind h
    obtain ⟨_, hpair, h⟩ := ok_bind h
    obtain ⟨hi, hkey⟩ := Table.find?_eq_some.mp (need_ok.mp hfind)
    have hfind' : t.instruments.find? id = some i :=
      Table.find?_eq_some.mpr ⟨hg.instruments i hi, hkey⟩
    refine ⟨scope, ?_, rfl⟩
    rw [need_ok.mpr hfind']
    change (ensure ((pairs scopes .eod).contains i.pair) _ >>= _) = _
    rw [hpair]
    exact h
  | none =>
    rw [hq] at h
    dsimp only at h ⊢
    obtain ⟨market, hmarket, h⟩ := ok_bind h
    obtain ⟨scope', hscope', hm, hs⟩ := marketScope_grows hg h
    refine ⟨scope', ?_, ?_⟩
    · rw [hmarket]
      exact hscope'
    · unfold eodScopePayload
      rw [hm, hs]

/-! ## Pages -/

/-- The documented order: the latest date first, and by id within a date. -/
def EodBefore (a b : EodRow ν) : Prop :=
  b.1.tradeDate < a.1.tradeDate ∨
    (a.1.tradeDate = b.1.tradeDate ∧ a.1.instrumentId < b.1.instrumentId)

def eodPosition (last : CivilDate × Uuid128) : CivilDateᵒᵈ ×ₗ Uuid128 :=
  toLex (OrderDual.toDual last.1, last.2)

theorem eodPosition_lt {a b : CivilDate × Uuid128} :
    eodPosition a < eodPosition b ↔ b.1 < a.1 ∨ (a.1 = b.1 ∧ a.2 < b.2) := by
  unfold eodPosition
  rw [Prod.Lex.toLex_lt_toLex, OrderDual.toDual_lt_toDual, OrderDual.toDual_inj]

theorem eodKey_lt {a b : EodRow ν} : eodKey a < eodKey b ↔ EodBefore a b :=
  @eodPosition_lt (a.1.tradeDate, a.1.instrumentId) (b.1.tradeDate, b.1.instrumentId)

theorem eodBehind_iff {last : Option (CivilDate × Uuid128)} {row : EodRow ν} :
    eodBehind last row.1 = true ↔ Behind eodKey (last.map eodPosition) row := by
  cases last with
  | none => exact ⟨fun _ k (hk : none = some k) => (by cases hk), fun _ => rfl⟩
  | some last =>
    have hiff : eodBehind (some last) row.1 = true ↔
        eodPosition last < eodPosition (row.1.tradeDate, row.1.instrumentId) := by
      rw [eodPosition_lt]
      change (decide (row.1.tradeDate < last.1) ||
        (row.1.tradeDate == last.1 && decide (last.2 < row.1.instrumentId))) = true ↔ _
      simp only [Bool.or_eq_true, Bool.and_eq_true, decide_eq_true_eq, beq_iff_eq]
      rw [eq_comm (a := row.1.tradeDate)]
    rw [hiff]
    refine ⟨fun h k hk => ?_, fun h => h _ rfl⟩
    cases hk
    exact h

theorem nodup_joinEod (db : Db cfg ν) : ((joinEod db).map eodKey).Nodup := by
  have hsub : ((joinEod db).map fun row => row.1).Sublist db.eod.rows := by
    unfold joinEod
    induction db.eod.rows with
    | nil => exact List.Sublist.refl _
    | cons r rows ih =>
      rw [List.filterMap_cons]
      cases db.instruments.find? r.instrumentId with
      | none => exact ih.cons r
      | some i => exact ih.cons_cons r
  have hkeys := db.eod.nodup.sublist (hsub.map MarketDataEOD.key)
  rw [List.map_map] at hkeys
  have hinj : Function.Injective fun k : Uuid128 × CivilDate => eodPosition (k.2, k.1) := by
    rintro ⟨i, d⟩ ⟨i', d'⟩ h
    have hpair := toLex.injective h
    rw [Prod.mk.injEq, OrderDual.toDual_inj] at hpair
    exact Prod.ext hpair.2 hpair.1
  have hmap := hkeys.map hinj
  rwa [List.map_map] at hmap

/-- The rows of a query, on any page. -/
def eodTable (q : EodQuery) (db : Db cfg ν) : List (EodRow ν) :=
  match eodScope db q with
  | .ok scope => eodRows db q scope
  | .error _ => []

/-- The cursor stands behind the row at `last` for queries of this payload. -/
def EodHolds (q : EodQuery) (payload : Json) (db : Db cfg ν) (cursor : Option String)
    (last : Option (CivilDateᵒᵈ ×ₗ Uuid128)) : Prop :=
  (∃ scope, eodScope db q = .ok scope ∧ eodScopePayload q scope = payload) ∧
  ((cursor = none ∧ last = none ∧ ∃ page, listEod q db none = .ok page) ∨
    ∃ c d i, cursor = some c ∧ last = some (eodPosition (d, i)) ∧
      encodeCursor (.obj (eodFields payload d i)) = .ok c)

/-- A page is answered from the rows behind the cursor. -/
theorem listEod_eq {q : EodQuery} {db : Db cfg ν} {scope : EodScope}
    (h : eodScope db q = .ok scope) {cursor : Option String}
    {last : Option (CivilDate × Uuid128)}
    (hcursor : (cursor = none ∧ last = none) ∨ ∃ c d i, cursor = some c ∧ last = some (d, i) ∧
      encodeCursor (.obj (eodFields (eodScopePayload q scope) d i)) = .ok c) :
    listEod q db cursor = respond q.pageSize
      (fun row => .obj (eodFields (eodScopePayload q scope) row.1.tradeDate row.1.instrumentId))
      (orderLimit eodKey ((eodRows db q scope).filter fun row => eodBehind last row.1)
        (q.pageSize + 1)) := by
  unfold listEod
  rw [h]
  rcases hcursor with ⟨rfl, rfl⟩ | ⟨c, d, i, rfl, rfl, hc⟩
  · rfl
  · have hs := sorted_eodScopePayload q scope
    have hread := readCursor_some (encodeCursor_ne_empty (sorted_eodFields hs d i) hc)
      (eodLast_encoded hs hc)
    change (readCursor (eodLast (eodScopePayload q scope)) (some c) >>= _) = _
    rw [hread]
    rfl

theorem listEod_serves (q : EodQuery) (hsize : 1 ≤ q.pageSize) (payload : Json) (d₀ : Db cfg ν)
    (hscope : ∃ scope, eodScope d₀ q = .ok scope ∧ eodScopePayload q scope = payload) :
    Serves eodKey (listEod q) (·.pagination.nextCursor) (·.data)
      (·.pagination.pageSize = q.pageSize) (eodTable q) q.pageSize
      (EodHolds q payload) (Grows d₀) := by
  rintro d cursor last ⟨⟨scope, hok, rfl⟩, hcursor⟩
  obtain ⟨position, hlast, hcursor', hfits⟩ : ∃ position : Option (CivilDate × Uuid128),
      last = position.map eodPosition ∧
      ((cursor = none ∧ position = none) ∨ ∃ c d i, cursor = some c ∧ position = some (d, i) ∧
        encodeCursor (.obj (eodFields (eodScopePayload q scope) d i)) = .ok c) ∧
      ((∃ page, listEod q d cursor = .ok page) ∨
        ∀ d i, Fits (.obj (eodFields (eodScopePayload q scope) d i))) := by
    rcases hcursor with ⟨rfl, rfl, hpage⟩ | ⟨c, date, id, rfl, rfl, hc⟩
    · exact ⟨none, rfl, Or.inl ⟨rfl, rfl⟩, Or.inl hpage⟩
    · exact ⟨some (date, id), rfl, Or.inr ⟨c, date, id, rfl, rfl, hc⟩,
        Or.inr fun date' id' => fits_eodFields date date' id id' (encodeCursor_ok.mp hc).1⟩
  have hlist := listEod_eq hok hcursor'
  have htable : eodTable q d = eodRows d q scope := by
    unfold eodTable
    rw [hok]
  have hkeys : (((eodRows d q scope).filter fun row => eodBehind position row.1).map eodKey).Nodup :=
    (nodup_joinEod d).sublist ((List.filter_sublist.trans List.filter_sublist).map eodKey)
  have hsel : ∀ r, r ∈ (eodRows d q scope).filter (fun row => eodBehind position row.1) ↔
      r ∈ eodRows d q scope ∧ Behind eodKey last r := fun r => by
    rw [List.mem_filter, eodBehind_iff, hlast]
  rw [htable, hlist]
  rw [hlist] at hfits
  obtain ⟨page, row, hrespond, hshows, hpage, hnext⟩ := respond_page hsize hkeys hsel
    (hfits.imp_right fun hall r => hall r.1.tradeDate r.1.instrumentId)
  refine ⟨page, row, hrespond, hshows, hpage, hnext.imp_right ?_⟩
  rintro ⟨c, r, hc, hrow, hencode⟩
  refine ⟨c, r, hc, hrow, fun d' hd' => ?_⟩
  obtain ⟨scope₀, hok₀, hpayload₀⟩ := hscope
  obtain ⟨scope', hok', hpayload'⟩ := eodScope_grows hd' hok₀
  exact ⟨⟨scope', hok', hpayload'.trans hpayload₀⟩,
    Or.inr ⟨c, r.1.tradeDate, r.1.instrumentId, rfl, rfl, hencode⟩⟩

/-- Following the cursors of `list_eod` loses and repeats nothing. -/
theorem listEod_paginates (q : EodQuery) (hsize : 1 ≤ q.pageSize) (d : Db cfg ν)
    {page : ListResponse (EodRow ν)} (h : listEod q d none = .ok page) :
    Paginates (listEod q) (·.pagination.nextCursor) (·.data) (·.pagination.pageSize = q.pageSize)
      EodBefore Grows (EodInScope q) d := by
  obtain ⟨scope, hok, _⟩ := ok_bind h
  refine (listEod_serves q hsize _ d ⟨scope, hok, rfl⟩).paginates hsize
    ⟨⟨scope, hok, rfl⟩, Or.inl ⟨rfl, rfl, page, h⟩⟩ (Grows.refl d) (fun t ht r => ?_)
    fun a b => eodKey_lt.mp
  obtain ⟨scope', hok', _⟩ := eodScope_grows ht hok
  unfold eodTable
  rw [hok']
  exact mem_eodRows hok' r

end FinDB.Serve
