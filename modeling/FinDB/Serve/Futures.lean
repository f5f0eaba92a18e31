import Mathlib.Data.Prod.Lex
import FinDB.Serve.Cursor
import FinDB.Serve.Eod

/-! # `list_futures_eod`

Pages of futures quotes, the latest date first and by descending id within a date. -/
namespace FinDB.Serve
open FinDB.Lib

variable {cfg : Config} {ν : Type}

structure FuturesQuery where
  productCode : Option String
  contractCode : Option String
  startDate : Option CivilDate
  endDate : Option CivilDate
  session : Option String
  pageSize : Nat
deriving DecidableEq

/-- Everything `list_futures_eod` checks before it looks at the cursor. -/
def checkFutures (db : Db cfg ν) (q : FuturesQuery) : Except Err Unit := do
  let scopes ← db.scopes
  ensure ((pairs scopes .futuresEod).contains ("TW", "future"))
    (.serve 422 "DATASET_NOT_AVAILABLE" "Futures EOD data is not active")
  ensure (q.productCode.all fun p => ["TX", "MTX", "TMF", "TE", "TF"].contains p)
    (.serve 422 "INVALID_PRODUCT" "Unsupported futures product")
  ensure (q.session.all fun s => ["regular", "after_hours"].contains s)
    (.serve 422 "INVALID_SESSION" "Unsupported futures session")
  ensure (q.contractCode.all fun c => decide (c.length ≤ 50) && c != "")
    (.serve 422 "INVALID_CONTRACT" "Invalid contract code")
  validateDates q.startDate q.endDate

/-! ## The cursor -/

def futuresFilters (q : FuturesQuery) : Json :=
  .obj [("contract_code", jsonText q.contractCode), ("end_date", jsonDate q.endDate),
    ("product_code", jsonText q.productCode), ("session", jsonText q.session),
    ("start_date", jsonDate q.startDate)]

def futuresFields (q : FuturesQuery) (lastDate : CivilDate) (lastId : Uuid128) :
    List (String × Json) :=
  [("filters", futuresFilters q), ("kind", .str "futures_eod"),
    ("last_date", .str lastDate.isoformat), ("last_id", .str lastId.text), ("v", .int 1)]

/-- The quote a cursor of this query stands behind. -/
def futuresLast (q : FuturesQuery) (cursor : String) : Except Err (CivilDate × Uuid128) := do
  let payload ← decodeCursor cursor
  ensure (payload.map (·.1) == ["filters", "kind", "last_date", "last_id", "v"] &&
      isOne (getField "v" payload) && getField "kind" payload == some (.str "futures_eod") &&
      getField "filters" payload == some (futuresFilters q))
    (invalidCursor "Cursor does not match this query")
  let lastDate ← need (asDate (getField "last_date" payload)) (invalidCursor "Cursor is invalid")
  let lastId ← need (asUuid (getField "last_id" payload)) (invalidCursor "Cursor is invalid")
  return (lastDate, lastId)

/-! ## The rows -/

/-- A quote beside its contract and the instrument of the product. -/
abbrev FuturesRow (ν : Type) := FuturesContractEOD ν × FuturesContract × Instrument

/-- `FuturesContractEOD JOIN FuturesContract JOIN Instrument`. -/
def joinFutures (db : Db cfg ν) : List (FuturesRow ν) :=
  db.futures.rows.filterMap fun quote => do
    let contract ← db.contracts.find? quote.contractId
    let instrument ← db.instruments.find? contract.instrumentId
    return (quote, contract, instrument)

/-- The filters of the request. -/
def FuturesQuery.selects (q : FuturesQuery) (row : FuturesRow ν) : Bool :=
  let (quote, contract, instrument) := row
  instrument.market == "TW" && instrument.assetClass == "future" &&
    (q.productCode.all fun p => instrument.symbol == p) &&
    (q.contractCode.all fun c => contract.contractCode == c) &&
    inDates q.startDate q.endDate quote.tradeDate &&
    q.session.all fun s => quote.session == s

/-- Behind the last quote: an older date, or a smaller id of its date. -/
def futuresBehind (last : Option (CivilDate × Uuid128)) (quote : FuturesContractEOD ν) : Bool :=
  last.all fun (lastDate, lastId) =>
    decide (quote.tradeDate < lastDate) || (quote.tradeDate == lastDate && decide (quote.id < lastId))

def futuresPosition (last : CivilDate × Uuid128) : CivilDateᵒᵈ ×ₗ Uuid128ᵒᵈ :=
  toLex (OrderDual.toDual last.1, OrderDual.toDual last.2)

/-- `ORDER BY trade_date DESC, id DESC`. -/
def futuresKey (row : FuturesRow ν) : CivilDateᵒᵈ ×ₗ Uuid128ᵒᵈ :=
  futuresPosition (row.1.tradeDate, row.1.id)

/-- The quotes in scope, on any page. -/
def futuresRows (db : Db cfg ν) (q : FuturesQuery) : List (FuturesRow ν) :=
  (joinFutures db).filter q.selects

/-- `list_futures_eod(db, ..)`: here a cursor that is there is read, also an empty one. -/
def listFuturesEod (q : FuturesQuery) (db : Db cfg ν) (cursor : Option String) :
    Except Err (ListResponse (FuturesRow ν)) := do
  checkFutures db q
  let last ← cursor.mapM (futuresLast q)
  let selected := (futuresRows db q).filter fun row => futuresBehind last row.1
  respond q.pageSize (fun row => .obj (futuresFields q row.1.tradeDate row.1.id))
    (orderLimit futuresKey selected (q.pageSize + 1))

/-! ## Cursors of a query -/

theorem sorted_futuresFields (q : FuturesQuery) (d : CivilDate) (i : Uuid128) :
    (Json.obj (futuresFields q d i)).Sorted := by
  have hfilters : (futuresFilters q).Sorted :=
    sorted_obj (k := ["contract_code", "end_date", "product_code", "session", "start_date"]) rfl
      (by decide) (by simp [SortedFields])
  exact sorted_obj (k := ["filters", "kind", "last_date", "last_id", "v"]) rfl (by decide)
    ⟨hfilters, sorted_str _, sorted_str _, sorted_str _, sorted_int _, trivial⟩

theorem fits_futuresFields {q : FuturesQuery} (d d' : CivilDate) (i i' : Uuid128)
    (h : Fits (.obj (futuresFields q d i))) : Fits (.obj (futuresFields q d' i')) := by
  have hlen : (Json.obj (futuresFields q d i)).dumps.length =
      (Json.obj (futuresFields q d' i')).dumps.length := by
    simp [futuresFields, Json.dumps, dumpsFields]
  unfold Fits at h ⊢
  rwa [← hlen]

theorem futuresLast_encoded {q : FuturesQuery} {d : CivilDate} {i : Uuid128} {cursor : String}
    (h : encodeCursor (.obj (futuresFields q d i)) = .ok cursor) :
    futuresLast q cursor = .ok (d, i) := by
  unfold futuresLast
  rw [decodeCursor_encodeCursor (sorted_futuresFields q d i) h]
  simp [futuresFields, getField, isOne, ensure, need, Except.bind, bind, pure, Except.pure]

/-! ## Pages -/

/-- The documented order: the latest date first, and by descending id within a date. -/
def FuturesBefore (a b : FuturesRow ν) : Prop :=
  b.1.tradeDate < a.1.tradeDate ∨ (a.1.tradeDate = b.1.tradeDate ∧ b.1.id < a.1.id)

theorem futuresPosition_lt {a b : CivilDate × Uuid128} :
    futuresPosition a < futuresPosition b ↔ b.1 < a.1 ∨ (a.1 = b.1 ∧ b.2 < a.2) := by
  unfold futuresPosition
  rw [Prod.Lex.toLex_lt_toLex, OrderDual.toDual_lt_toDual, OrderDual.toDual_inj,
    OrderDual.toDual_lt_toDual]

theorem futuresKey_lt {a b : FuturesRow ν} : futuresKey a < futuresKey b ↔ FuturesBefore a b :=
  @futuresPosition_lt (a.1.tradeDate, a.1.id) (b.1.tradeDate, b.1.id)

theorem futuresBehind_iff {last : Option (CivilDate × Uuid128)} {row : FuturesRow ν} :
    futuresBehind last row.1 = true ↔ Behind futuresKey (last.map futuresPosition) row := by
  cases last with
  | none => exact ⟨fun _ k (hk : none = some k) => (by cases hk), fun _ => rfl⟩
  | some last =>
    have hiff : futuresBehind (some last) row.1 = true ↔
        futuresPosition last < futuresPosition (row.1.tradeDate, row.1.id) := by
      rw [futuresPosition_lt]
      change (decide (row.1.tradeDate < last.1) ||
        (row.1.tradeDate == last.1 && decide (row.1.id < last.2))) = true ↔ _
      simp only [Bool.or_eq_true, Bool.and_eq_true, decide_eq_true_eq, beq_iff_eq]
      rw [eq_comm (a := row.1.tradeDate)]
    rw [hiff]
    refine ⟨fun h k hk => ?_, fun h => h _ rfl⟩
    cases hk
    exact h

/-- A quote the query is about: of an active product, and as the request filters. -/
def FuturesInScope (q : FuturesQuery) (db : Db cfg ν) (row : FuturesRow ν) : Prop :=
  (row.1 ∈ db.futures ∧ (row.2.1 ∈ db.contracts ∧ row.2.1.contractId = row.1.contractId) ∧
    row.2.2 ∈ db.instruments ∧ row.2.2.instrumentId = row.2.1.instrumentId) ∧
  row.2.2.pair = ("TW", "future") ∧
  (∀ product, q.productCode = some product → row.2.2.symbol = product) ∧
  (∀ contract, q.contractCode = some contract → row.2.1.contractCode = contract) ∧
  inDates q.startDate q.endDate row.1.tradeDate = true ∧
  ∀ session, q.session = some session → row.1.session = session

theorem mem_joinFutures {db : Db cfg ν} {row : FuturesRow ν} :
    row ∈ joinFutures db ↔
      row.1 ∈ db.futures ∧ (row.2.1 ∈ db.contracts ∧ row.2.1.contractId = row.1.contractId) ∧
        row.2.2 ∈ db.instruments ∧ row.2.2.instrumentId = row.2.1.instrumentId := by
  obtain ⟨quote, contract, instrument⟩ := row
  unfold joinFutures
  rw [List.mem_filterMap]
  constructor
  · rintro ⟨quote', hquote, hjoin⟩
    obtain ⟨contract', hcontract, hjoin⟩ := Option.bind_eq_some_iff.mp hjoin
    obtain ⟨instrument', hinstrument, heq⟩ := Option.bind_eq_some_iff.mp hjoin
    cases heq
    exact ⟨hquote, Table.find?_eq_some.mp hcontract, Table.find?_eq_some.mp hinstrument⟩
  · rintro ⟨hquote, hcontract, hinstrument⟩
    refine ⟨quote, hquote, Option.bind_eq_some_iff.mpr ⟨contract, Table.find?_eq_some.mpr hcontract,
      Option.bind_eq_some_iff.mpr ⟨instrument, Table.find?_eq_some.mpr hinstrument, rfl⟩⟩⟩

theorem all_beq {α : Type} [DecidableEq α] {o : Option α} {a : α} :
    (o.all fun b => a == b) = true ↔ ∀ b, o = some b → a = b := by
  cases o with
  | none => simp
  | some b => simp

theorem mem_futuresRows {db : Db cfg ν} {q : FuturesQuery} (row : FuturesRow ν) :
    row ∈ futuresRows db q ↔ FuturesInScope q db row := by
  unfold futuresRows FuturesInScope FuturesQuery.selects Instrument.pair
  rw [List.mem_filter, mem_joinFutures]
  refine and_congr_right fun _ => ?_
  dsimp only
  simp only [Bool.and_eq_true, all_beq, beq_iff_eq, Prod.mk.injEq, and_assoc]

theorem nodup_joinFutures (db : Db cfg ν) : ((joinFutures db).map futuresKey).Nodup := by
  have hsub : ((joinFutures db).map fun row => row.1).Sublist db.futures.rows := by
    unfold joinFutures
    induction db.futures.rows with
    | nil => exact List.Sublist.refl _
    | cons quote rows ih =>
      rw [List.filterMap_cons]
      cases hc : db.contracts.find? quote.contractId with
      | none => exact ih.cons quote
      | some contract =>
        cases hi : db.instruments.find? contract.instrumentId with
        | none =>
          simp only [Option.bind_eq_bind, Option.bind_some, hi]
          exact ih.cons quote
        | some instrument =>
          simp only [Option.bind_eq_bind, Option.bind_some, hi]
          exact ih.cons_cons quote
  have hids := db.futures.nodup.sublist (hsub.map FuturesContractEOD.id)
  rw [List.map_map] at hids
  have hrows := List.Nodup.of_map _ hids
  refine hrows.map_on fun a ha b hb he => ?_
  have hpair := toLex.injective he
  rw [Prod.mk.injEq, OrderDual.toDual_inj, OrderDual.toDual_inj] at hpair
  exact List.inj_on_of_nodup_map hids ha hb hpair.2

theorem checkFutures_grows {s t : Db cfg ν} (hg : Grows s t) {q : FuturesQuery} {u : Unit}
    (h : checkFutures s q = .ok u) : checkFutures t q = .ok u := by
  unfold checkFutures at h ⊢
  rwa [hg.scopes]

/-- The cursor stands behind a quote of this query. -/
def FuturesHolds (q : FuturesQuery) (db : Db cfg ν) (cursor : Option String)
    (last : Option (CivilDateᵒᵈ ×ₗ Uuid128ᵒᵈ)) : Prop :=
  checkFutures db q = .ok () ∧
  ((cursor = none ∧ last = none ∧ ∃ page, listFuturesEod q db none = .ok page) ∨
    ∃ c d i, cursor = some c ∧ last = some (futuresPosition (d, i)) ∧
      encodeCursor (.obj (futuresFields q d i)) = .ok c)

/-- A page is answered from the quotes behind the cursor. -/
theorem listFuturesEod_eq {q : FuturesQuery} {db : Db cfg ν} {cursor : Option String}
    {last : Option (CivilDateᵒᵈ ×ₗ Uuid128ᵒᵈ)} (h : FuturesHolds q db cursor last) :
    ∃ position : Option (CivilDate × Uuid128), last = position.map futuresPosition ∧
      listFuturesEod q db cursor = respond q.pageSize
        (fun row => .obj (futuresFields q row.1.tradeDate row.1.id))
        (orderLimit futuresKey ((futuresRows db q).filter fun row => futuresBehind position row.1)
          (q.pageSize + 1)) ∧
      ((∃ page, listFuturesEod q db cursor = .ok page) ∨
        ∀ d i, Fits (.obj (futuresFields q d i))) := by
  obtain ⟨hcheck, ⟨rfl, rfl, hpage⟩ | ⟨c, d, i, rfl, rfl, hc⟩⟩ := h
  · refine ⟨none, rfl, ?_, Or.inl hpage⟩
    unfold listFuturesEod
    rw [hcheck]
    rfl
  · refine ⟨some (d, i), rfl, ?_,
      Or.inr fun d' i' => fits_futuresFields d d' i i' (encodeCursor_ok.mp hc).1⟩
    have hread : (some c).mapM (futuresLast q) = .ok (some (d, i)) := by
      rw [Option.mapM_some, futuresLast_encoded hc]
      rfl
    unfold listFuturesEod
    rw [hcheck, hread]
    rfl

theorem listFuturesEod_serves (q : FuturesQuery) (hsize : 1 ≤ q.pageSize) {d₀ : Db cfg ν}
    (hcheck : checkFutures d₀ q = .ok ()) :
    Serves futuresKey (listFuturesEod q) (·.pagination.nextCursor) (·.data)
      (·.pagination.pageSize = q.pageSize) (futuresRows · q) q.pageSize (FuturesHolds q)
      (Grows d₀) := by
  intro d cursor last h
  obtain ⟨position, rfl, hlist, hfits⟩ := listFuturesEod_eq h
  have hkeys : (((futuresRows d q).filter fun row => futuresBehind position row.1).map
      futuresKey).Nodup :=
    (nodup_joinFutures d).sublist ((List.filter_sublist.trans List.filter_sublist).map futuresKey)
  have hsel : ∀ r, r ∈ (futuresRows d q).filter (fun row => futuresBehind position row.1) ↔
      r ∈ futuresRows d q ∧ Behind futuresKey (position.map futuresPosition) r := fun r => by
    rw [List.mem_filter, futuresBehind_iff]
  rw [hlist] at hfits ⊢
  obtain ⟨page, row, hrespond, hshows, hpage, hnext⟩ := respond_page hsize hkeys hsel
    (hfits.imp_right fun hall r => hall r.1.tradeDate r.1.id)
  refine ⟨page, row, hrespond, hshows, hpage, hnext.imp_right ?_⟩
  rintro ⟨c, r, hc, hrow, hencode⟩
  exact ⟨c, r, hc, hrow, fun d' hd' =>
    ⟨checkFutures_grows hd' hcheck, Or.inr ⟨c, r.1.tradeDate, r.1.id, rfl, rfl, hencode⟩⟩⟩

/-- Following the cursors of `list_futures_eod` loses and repeats nothing. -/
theorem listFuturesEod_paginates (q : FuturesQuery) (hsize : 1 ≤ q.pageSize) (d : Db cfg ν)
    {page : ListResponse (FuturesRow ν)} (h : listFuturesEod q d none = .ok page) :
    Paginates (listFuturesEod q) (·.pagination.nextCursor) (·.data)
      (·.pagination.pageSize = q.pageSize) FuturesBefore Grows (FuturesInScope q) d := by
  obtain ⟨_, hcheck, _⟩ := ok_bind h
  exact (listFuturesEod_serves q hsize hcheck).paginates hsize
    ⟨hcheck, Or.inl ⟨rfl, rfl, page, h⟩⟩ (Grows.refl d) (fun _ _ r => mem_futuresRows r)
    fun a b => futuresKey_lt.mp

end FinDB.Serve
