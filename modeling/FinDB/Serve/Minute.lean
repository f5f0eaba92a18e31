import Mathlib.Data.List.MinMax
import FinDB.Serve.Cursor

/-! # `list_minute`

Pages of one instrument's bars, the latest first. A request without dates is for the
month up to the latest bar of its first page: the cursor carries the range. -/
namespace FinDB.Serve
open FinDB.Lib

variable {cfg : Config} {ν : Type}

/-! ## Ranges -/

/-- `date(year, month, day)`, called with a day of the month. -/
def civilDate (year month day : Nat) : Except Err CivilDate :=
  if valid : (1 ≤ year ∧ year ≤ 9999) ∧ (1 ≤ month ∧ month ≤ 12) ∧ 1 ≤ day ∧
      day ≤ monthDays year month then
    .ok ⟨year, month, day, valid⟩
  else .error (.value s!"year {year} is out of range")

/-- `_shift_month_back(value)`. -/
def shiftMonthBack (value : CivilDate) : Except Err CivilDate :=
  let year := if value.month = 1 then value.year - 1 else value.year
  let month := if value.month = 1 then 12 else value.month - 1
  civilDate year month (min value.day (monthDays year month))

/-- `_shift_years(value, years)`. -/
def shiftYears (value : CivilDate) (years : Nat) : Except Err CivilDate :=
  let targetYear := value.year + years
  civilDate targetYear value.month (min value.day (monthDays targetYear value.month))

/-- `_valid_minute_range(start_date, end_date)`. -/
def validMinuteRange (startDate endDate : CivilDate) : Except Err Bool :=
  if endDate < startDate then .ok false
  else if endDate.year - startDate.year < 5 then .ok true
  else if 5 < endDate.year - startDate.year then .ok false
  else do
    let limit ← shiftYears startDate 5
    return decide (endDate ≤ limit)

inductive Anchor where
  | explicit | latestAvailable
deriving DecidableEq, Repr

def Anchor.text : Anchor → String
  | .explicit => "explicit"
  | .latestAvailable => "latest_available"

def Anchor.ofJson : Option Json → Option Anchor
  | some (.str s) =>
    if s = "explicit" then some .explicit
    else if s = "latest_available" then some .latestAvailable
    else none
  | _ => none

structure MinuteRange where
  startDate : CivilDate
  endDate : CivilDate
  anchor : Anchor
deriving DecidableEq

/-! ## Requests and answers -/

structure MinuteQuery where
  instrumentId : Uuid128
  startDate : Option CivilDate
  endDate : Option CivilDate
  pageSize : Nat
deriving DecidableEq

/-- `ResolvedDateRangeResponse`. -/
structure ResolvedDateRange where
  startDate : Option CivilDate
  endDate : Option CivilDate
  anchor : Anchor
deriving DecidableEq

/-- A bar beside its instrument. -/
abbrev MinuteRow (ν : Type) := MarketDataMinute ν × Instrument

structure MinuteListResponse (ν : Type) where
  page : ListResponse (MinuteRow ν)
  range : ResolvedDateRange
deriving DecidableEq

/-! ## The cursor -/

def minuteFields (instrumentId : Uuid128) (range : MinuteRange) (lastBar : UtcTime) :
    List (String × Json) :=
  [("anchor", .str range.anchor.text), ("end_date", .str range.endDate.isoformat),
    ("instrument_id", .str instrumentId.text), ("kind", .str "minute"),
    ("last_bar_start_time", .str lastBar.isoformat), ("start_date", .str range.startDate.isoformat),
    ("v", .int 1)]

/-- What is checked of the range of a cursor. -/
def checkCursorRange (range : MinuteRange) : Except Err Unit := do
  let valid ← validMinuteRange range.startDate range.endDate
  ensure valid (invalidCursor "Cursor contains an invalid date range")
  match range.anchor with
  | .explicit => return ()
  | .latestAvailable => do
    let monthBack ← shiftMonthBack range.endDate
    ensure (range.startDate == monthBack) (invalidCursor "Cursor contains an invalid date range")

/-- The range a cursor carries, and the bar it stands behind. -/
def minuteLast (q : MinuteQuery) (cursor : String) : Except Err (MinuteRange × UtcTime) := do
  let payload ← decodeCursor cursor
  ensure (payload.map (·.1) == ["anchor", "end_date", "instrument_id", "kind",
        "last_bar_start_time", "start_date", "v"] &&
      isOne (getField "v" payload) && getField "kind" payload == some (.str "minute") &&
      getField "instrument_id" payload == some (.str q.instrumentId.text))
    (invalidCursor "Cursor does not match this query")
  let cursorStart ← need (asDate (getField "start_date" payload)) (invalidCursor "Cursor is invalid")
  let cursorEnd ← need (asDate (getField "end_date" payload)) (invalidCursor "Cursor is invalid")
  let cursorAnchor ← need (Anchor.ofJson (getField "anchor" payload))
    (invalidCursor "Cursor is invalid")
  let lastAt ← need (asTime (getField "last_bar_start_time" payload))
    (invalidCursor "Cursor is invalid")
  checkCursorRange ⟨cursorStart, cursorEnd, cursorAnchor⟩
  ensure (q.startDate.isNone || (q.startDate == some cursorStart && q.endDate == some cursorEnd))
    (invalidCursor "Cursor does not match this query")
  return (⟨cursorStart, cursorEnd, cursorAnchor⟩, lastAt)

/-! ## The rows -/

/-- The bars of an instrument. -/
def barsOf (db : Db cfg ν) (id : Uuid128) : List (MarketDataMinute ν) :=
  db.minute.rows.filter fun r => r.instrumentId == id

/-- What is checked of the dates of a request. -/
def checkMinuteDates (q : MinuteQuery) : Except Err Unit := do
  ensure (q.startDate.isNone == q.endDate.isNone)
    (.serve 422 "INVALID_DATE_RANGE" "start_date and end_date must be provided together")
  match q.startDate, q.endDate with
  | some startDate, some endDate => do
    let valid ← validMinuteRange startDate endDate
    ensure valid (.serve 422 "INVALID_DATE_RANGE"
      "Minute range must be ordered and no longer than five calendar years")
  | _, _ => return ()

/-- Everything `list_minute` checks before it looks at the cursor. -/
def minuteInstrument (db : Db cfg ν) (q : MinuteQuery) : Except Err Instrument := do
  checkMinuteDates q
  let scopes ← db.scopes
  let instrument ← need (db.instruments.find? q.instrumentId)
    (.serve 404 "INSTRUMENT_NOT_FOUND" "Instrument not found")
  ensure ((pairs scopes .minute).contains instrument.pair)
    (.serve 422 "DATASET_NOT_AVAILABLE" "Minute data is not available for this instrument")
  return instrument

/-- The range of a first page: the dates of the request, or the month up to the
latest bar. No range when there is no bar. -/
def firstRange (db : Db cfg ν) (q : MinuteQuery) : Except Err (Option MinuteRange) :=
  match q.startDate, q.endDate with
  | some startDate, some endDate => .ok (some ⟨startDate, endDate, .explicit⟩)
  | _, _ =>
    match ((barsOf db q.instrumentId).map (·.tradeDate)).maximum with
    | none => .ok none
    | some endDate => do
      let startDate ← shiftMonthBack endDate
      return some ⟨startDate, endDate, .latestAvailable⟩

/-- `ORDER BY bar_start_time DESC`. -/
def minuteKey (row : MinuteRow ν) : UtcTimeᵒᵈ := OrderDual.toDual row.1.barStartTime

/-- The bars in range, on any page. -/
def minuteRows (db : Db cfg ν) (instrument : Instrument) (range : MinuteRange) : List (MinuteRow ν) :=
  ((barsOf db instrument.instrumentId).filter fun r =>
    decide (range.startDate ≤ r.tradeDate) && decide (r.tradeDate ≤ range.endDate)).map
      fun r => (r, instrument)

/-- The page of a range behind a bar. -/
def minutePage (q : MinuteQuery) (db : Db cfg ν) (instrument : Instrument) (range : MinuteRange)
    (lastAt : Option UtcTime) : Except Err (MinuteListResponse ν) := do
  let selected := (minuteRows db instrument range).filter fun row =>
    lastAt.all fun lastAt => decide (row.1.barStartTime < lastAt)
  let page ← respond q.pageSize
    (fun row => .obj (minuteFields q.instrumentId range row.1.barStartTime))
    (orderLimit minuteKey selected (q.pageSize + 1))
  return {
    page
    range :=
      { startDate := if page.data.isEmpty then none else some range.startDate
        endDate := if page.data.isEmpty then none else some range.endDate
        anchor := range.anchor } }

/-- `list_minute(db, ..)`. -/
def listMinute (q : MinuteQuery) (db : Db cfg ν) (cursor : Option String) :
    Except Err (MinuteListResponse ν) := do
  let instrument ← minuteInstrument db q
  let last ← readCursor (minuteLast q) cursor
  match last with
  | some (range, lastAt) => minutePage q db instrument range (some lastAt)
  | none => do
    match ← firstRange db q with
    | none => return ⟨⟨[], ⟨q.pageSize, none⟩⟩, ⟨none, none, .latestAvailable⟩⟩
    | some range => minutePage q db instrument range none

/-! ## Ranges that hold -/

theorem civilDate_ok {year month day : Nat} {d : CivilDate} (h : civilDate year month day = .ok d) :
    d.year = year ∧ d.month = month ∧ d.day = day := by
  unfold civilDate at h
  split at h
  · cases h
    exact ⟨rfl, rfl, rfl⟩
  · cases h

/-- The month before a date is in front of it, and a valid range with it. -/
theorem shiftMonthBack_valid {d s : CivilDate} (h : shiftMonthBack d = .ok s) :
    validMinuteRange s d = .ok true := by
  obtain ⟨hyear, hmonth, hday⟩ := civilDate_ok h
  have hmin : s.day ≤ d.day := hday.trans_le (min_le_left _ _)
  obtain ⟨_, ⟨_, hm⟩, _⟩ := s.valid
  obtain ⟨⟨hy, _⟩, ⟨hm1, _⟩, _⟩ := d.valid
  have hle : s.ordinal ≤ d.ordinal := by
    unfold CivilDate.ordinal
    split_ifs at hyear hmonth <;> omega
  have hnear : d.year - s.year < 5 := by
    split_ifs at hyear <;> omega
  unfold validMinuteRange
  rw [if_neg (not_lt.mpr (CivilDate.le_iff.mpr hle)), if_pos hnear]

/-- A range the request resolves to. -/
structure RangeOf (q : MinuteQuery) (range : MinuteRange) : Prop where
  valid : validMinuteRange range.startDate range.endDate = .ok true
  month : range.anchor = .latestAvailable → shiftMonthBack range.endDate = .ok range.startDate
  given : q.startDate = none ∨
    (q.startDate = some range.startDate ∧ q.endDate = some range.endDate)

theorem rangeOf_firstRange {db : Db cfg ν} {q : MinuteQuery} {instrument : Instrument}
    {range : MinuteRange} (hq : minuteInstrument db q = .ok instrument)
    (h : firstRange db q = .ok (some range)) : RangeOf q range := by
  unfold minuteInstrument at hq
  obtain ⟨_, hcheck, _⟩ := ok_bind hq
  unfold checkMinuteDates at hcheck
  obtain ⟨_, hboth, hcheck⟩ := ok_bind hcheck
  rw [ensure_ok, beq_iff_eq] at hboth
  unfold firstRange at h
  cases hs : q.startDate with
  | none =>
    rw [hs] at h
    dsimp only at h
    split at h
    · cases h
    · obtain ⟨startDate, hback, h⟩ := ok_bind h
      cases ok_pure h
      exact ⟨shiftMonthBack_valid hback, fun _ => hback, Or.inl hs⟩
  | some startDate =>
    cases he : q.endDate with
    | none =>
      rw [hs, he] at hboth
      cases hboth
    | some endDate =>
      rw [hs, he] at h hcheck
      cases h
      obtain ⟨valid, hrange, hvalid⟩ := ok_bind hcheck
      rw [ensure_ok.mp hvalid] at hrange
      exact ⟨hrange, (fun he => by cases he), Or.inr ⟨hs, he⟩⟩

/-! ## Cursors of a query -/

theorem sorted_minuteFields (id : Uuid128) (range : MinuteRange) (t : UtcTime) :
    (Json.obj (minuteFields id range t)).Sorted :=
  sorted_obj (k := ["anchor", "end_date", "instrument_id", "kind", "last_bar_start_time",
    "start_date", "v"]) rfl (by decide) (by simp [minuteFields, SortedFields])

theorem fits_minuteFields (id : Uuid128) (range : MinuteRange) (t : UtcTime) :
    Fits (.obj (minuteFields id range t)) := by
  have hanchor : (writeString range.anchor.text).length ≤ 18 := by
    cases range.anchor <;> decide
  have htime := length_writeString_time t
  have hkeys : (writeString "anchor").length + (writeString "end_date").length +
      (writeString "instrument_id").length + (writeString "kind").length +
      (writeString "last_bar_start_time").length + (writeString "start_date").length +
      (writeString "v").length + (writeString "minute").length + (writeInt 1).length ≤ 200 := by
    decide
  unfold Fits maxCursorBytes
  simp only [minuteFields, Json.dumps, dumpsFields, List.length_cons, List.length_append,
    length_writeString_date, length_writeString_uuid, List.length_nil]
  omega

theorem Anchor.ofJson_text (a : Anchor) : Anchor.ofJson (some (.str a.text)) = some a := by
  cases a <;> decide

theorem checkCursorRange_of {q : MinuteQuery} {range : MinuteRange} (hr : RangeOf q range) :
    checkCursorRange range = .ok () := by
  unfold checkCursorRange
  rw [hr.valid]
  cases ha : range.anchor with
  | explicit => rfl
  | latestAvailable =>
    change (shiftMonthBack range.endDate >>= _) = _
    rw [hr.month ha]
    exact ensure_ok.mpr (beq_self_eq_true _)

theorem minuteLast_encoded {q : MinuteQuery} {range : MinuteRange} (hr : RangeOf q range)
    {t : UtcTime} {cursor : String}
    (h : encodeCursor (.obj (minuteFields q.instrumentId range t)) = .ok cursor) :
    minuteLast q cursor = .ok (range, t) := by
  unfold minuteLast
  rw [decodeCursor_encodeCursor (sorted_minuteFields _ range t) h]
  have hgiven : (q.startDate.isNone || (q.startDate == some range.startDate &&
      q.endDate == some range.endDate)) = true := by
    rcases hr.given with hnone | ⟨hs, he⟩
    · rw [hnone]
      rfl
    · rw [hs, he]
      simp
  simp [minuteFields, getField, isOne, ensure, need, Anchor.ofJson_text, hgiven,
    checkCursorRange_of hr, bind, Except.bind, pure, Except.pure]

/-! ## Pages -/

theorem minuteInstrument_found {db : Db cfg ν} {q : MinuteQuery} {instrument : Instrument}
    (h : minuteInstrument db q = .ok instrument) :
    instrument ∈ db.instruments ∧ instrument.instrumentId = q.instrumentId := by
  unfold minuteInstrument at h
  obtain ⟨_, _, h⟩ := ok_bind h
  obtain ⟨_, _, h⟩ := ok_bind h
  obtain ⟨i, hfind, h⟩ := ok_bind h
  obtain ⟨_, _, h⟩ := ok_bind h
  rw [ok_pure h]
  exact Table.find?_eq_some.mp (need_ok.mp hfind)

theorem minuteInstrument_grows {s t : Db cfg ν} (hg : Grows s t) {q : MinuteQuery}
    {instrument : Instrument} (h : minuteInstrument s q = .ok instrument) :
    minuteInstrument t q = .ok instrument := by
  obtain ⟨hi, hid⟩ := minuteInstrument_found h
  have hs : s.instruments.find? q.instrumentId = some instrument := Table.find?_eq_some.mpr ⟨hi, hid⟩
  have ht : t.instruments.find? q.instrumentId = some instrument :=
    Table.find?_eq_some.mpr ⟨hg.instruments _ hi, hid⟩
  unfold minuteInstrument at h ⊢
  rw [hs] at h
  rwa [hg.scopes, ht]

/-- Two bars of an instrument start at different times. -/
theorem nodup_minuteRows (db : Db cfg ν) (instrument : Instrument) (range : MinuteRange) :
    ((minuteRows db instrument range).map minuteKey).Nodup := by
  have hnodup : (barsOf db instrument.instrumentId).Nodup :=
    (List.Nodup.of_map _ db.minute.nodup).sublist List.filter_sublist
  unfold minuteRows
  rw [List.map_map]
  refine (hnodup.sublist List.filter_sublist).map_on fun a ha b hb he => ?_
  obtain ⟨ha, hida⟩ := List.mem_filter.mp (List.mem_of_mem_filter ha)
  obtain ⟨hb, hidb⟩ := List.mem_filter.mp (List.mem_of_mem_filter hb)
  have hbar : a.barStartTime = b.barStartTime := OrderDual.toDual_inj.mp he
  have hid : a.instrumentId = b.instrumentId := (beq_iff_eq.mp hida).trans (beq_iff_eq.mp hidb).symm
  refine Table.eq_of_key (t := db.minute) ha hb ?_
  -- the trade date is the local date of the bar
  have hdate : a.tradeDate = b.tradeDate := by
    rw [db.localDate a ha, db.localDate b hb, hbar]
  unfold MarketDataMinute.key
  rw [hid, hdate, hbar]

/-- The documented order: the latest bar first. -/
def MinuteBefore (a b : MinuteRow ν) : Prop := b.1.barStartTime < a.1.barStartTime

theorem minuteKey_lt {a b : MinuteRow ν} : minuteKey a < minuteKey b ↔ MinuteBefore a b :=
  OrderDual.toDual_lt_toDual

/-- A bar the query is about: of its instrument, and in the range the first page
resolved it to over `first`. -/
def MinuteInScope (q : MinuteQuery) (first db : Db cfg ν) (row : MinuteRow ν) : Prop :=
  (row.1 ∈ db.minute ∧ row.1.instrumentId = q.instrumentId) ∧
  (row.2 ∈ db.instruments ∧ row.2.instrumentId = q.instrumentId) ∧
  ∃ range, firstRange first q = .ok (some range) ∧
    range.startDate ≤ row.1.tradeDate ∧ row.1.tradeDate ≤ range.endDate

theorem mem_minuteRows {db : Db cfg ν} {q : MinuteQuery} {instrument : Instrument}
    {range : MinuteRange} (hi : instrument ∈ db.instruments)
    (hid : instrument.instrumentId = q.instrumentId) {row : MinuteRow ν} :
    row ∈ minuteRows db instrument range ↔
      (row.1 ∈ db.minute ∧ row.1.instrumentId = q.instrumentId) ∧
      (row.2 ∈ db.instruments ∧ row.2.instrumentId = q.instrumentId) ∧
      range.startDate ≤ row.1.tradeDate ∧ row.1.tradeDate ≤ range.endDate := by
  obtain ⟨r, i⟩ := row
  have hbar : r ∈ barsOf db instrument.instrumentId ↔ r ∈ db.minute ∧ r.instrumentId = q.instrumentId := by
    unfold barsOf
    rw [List.mem_filter, beq_iff_eq, hid]
    exact Iff.rfl
  unfold minuteRows
  rw [List.mem_map]
  constructor
  · rintro ⟨r', hr', heq⟩
    cases heq
    obtain ⟨hr', hdates⟩ := List.mem_filter.mp hr'
    rw [Bool.and_eq_true, decide_eq_true_eq, decide_eq_true_eq] at hdates
    exact ⟨hbar.mp hr', ⟨hi, hid⟩, hdates⟩
  · rintro ⟨hr, ⟨hi', hid'⟩, hdates⟩
    refine ⟨r, List.mem_filter.mpr ⟨hbar.mpr hr, ?_⟩, ?_⟩
    · rw [Bool.and_eq_true, decide_eq_true_eq, decide_eq_true_eq]
      exact hdates
    · exact Prod.ext rfl (Table.eq_of_key hi hi' (hid.trans hid'.symm))

/-- The range a page shows: none without bars. -/
def MinuteShows (q : MinuteQuery) (range : MinuteRange) (page : MinuteListResponse ν) : Prop :=
  page.page.pagination.pageSize = q.pageSize ∧ page.range.anchor = range.anchor ∧
  (page.page.data ≠ [] →
    page.range.startDate = some range.startDate ∧ page.range.endDate = some range.endDate)

/-- The bars of a later page are those behind the last one. -/
theorem behind_minute {rows : List (MinuteRow ν)} {lastAt : Option UtcTime} (r : MinuteRow ν) :
    r ∈ rows.filter (fun row => lastAt.all fun lastAt => decide (row.1.barStartTime < lastAt)) ↔
      r ∈ rows ∧ Behind minuteKey (lastAt.map OrderDual.toDual) r := by
  rw [List.mem_filter]
  refine and_congr_right fun _ => ?_
  cases lastAt with
  | none => exact ⟨fun _ k (hk : none = some k) => (by cases hk), fun _ => rfl⟩
  | some t =>
    have hlt : OrderDual.toDual t < minuteKey r ↔ r.1.barStartTime < t := OrderDual.toDual_lt_toDual
    rw [Option.all_some, decide_eq_true_eq, ← hlt]
    constructor
    · intro h k hk
      cases hk
      exact h
    · exact fun h => h _ rfl

/-- A page of a range is answered from the bars behind the last one. -/
theorem minutePage_page {q : MinuteQuery} (hsize : 1 ≤ q.pageSize) (db : Db cfg ν)
    (instrument : Instrument) (range : MinuteRange) (lastAt : Option UtcTime) :
    ∃ page row, minutePage q db instrument range lastAt = .ok page ∧ MinuteShows q range page ∧
      IsPage minuteKey (minuteRows db instrument range) (lastAt.map OrderDual.toDual) q.pageSize
        page.page.data row ∧
      ((page.page.pagination.nextCursor = none ∧ row = none) ∨
        ∃ c r, page.page.pagination.nextCursor = some c ∧ row = some r ∧
          encodeCursor (.obj (minuteFields q.instrumentId range r.1.barStartTime)) = .ok c) := by
  have hkeys := (nodup_minuteRows db instrument range).sublist
    ((List.filter_sublist (p := fun row => lastAt.all fun lastAt =>
      decide (row.1.barStartTime < lastAt))).map minuteKey)
  obtain ⟨page, row, hrespond, hpageSize, hpage, hnext⟩ := respond_page hsize hkeys behind_minute
    (Or.inr fun r => fits_minuteFields q.instrumentId range r.1.barStartTime)
  unfold minutePage
  dsimp only
  rw [hrespond]
  refine ⟨_, row, rfl, ⟨hpageSize, rfl, fun hne => ?_⟩, hpage, hnext⟩
  have hdata : page.data.isEmpty = false := by simpa using hne
  dsimp only
  rw [hdata]
  exact ⟨rfl, rfl⟩

/-- The cursor stands behind a bar of the instrument and range. -/
def MinuteHolds (q : MinuteQuery) (instrument : Instrument) (range : MinuteRange) (db : Db cfg ν)
    (cursor : Option String) (last : Option UtcTimeᵒᵈ) : Prop :=
  minuteInstrument db q = .ok instrument ∧
  ((cursor = none ∧ last = none ∧ firstRange db q = .ok (some range)) ∨
    ∃ c t, cursor = some c ∧ last = some (OrderDual.toDual t) ∧
      encodeCursor (.obj (minuteFields q.instrumentId range t)) = .ok c)

theorem listMinute_eq {q : MinuteQuery} {db : Db cfg ν} {instrument : Instrument}
    {range : MinuteRange} (hr : RangeOf q range) {cursor : Option String} {last : Option UtcTimeᵒᵈ}
    (h : MinuteHolds q instrument range db cursor last) :
    ∃ lastAt : Option UtcTime, last = lastAt.map OrderDual.toDual ∧
      listMinute q db cursor = minutePage q db instrument range lastAt := by
  obtain ⟨hi, ⟨rfl, rfl, hfirst⟩ | ⟨c, t, rfl, rfl, hc⟩⟩ := h
  · refine ⟨none, rfl, ?_⟩
    unfold listMinute
    rw [hi, hfirst]
    rfl
  · refine ⟨some t, rfl, ?_⟩
    have hread := readCursor_some (encodeCursor_ne_empty (sorted_minuteFields _ range t) hc)
      (minuteLast_encoded hr hc)
    unfold listMinute
    rw [hi, hread]
    rfl

theorem listMinute_serves (q : MinuteQuery) (hsize : 1 ≤ q.pageSize) {d₀ : Db cfg ν}
    {instrument : Instrument} {range : MinuteRange} (hr : RangeOf q range)
    (hi : minuteInstrument d₀ q = .ok instrument) :
    Serves minuteKey (listMinute q) (·.page.pagination.nextCursor) (·.page.data)
      (MinuteShows q range) (fun d => minuteRows d instrument range) q.pageSize
      (MinuteHolds q instrument range) (Grows d₀) := by
  intro d cursor last h
  obtain ⟨lastAt, rfl, hlist⟩ := listMinute_eq hr h
  obtain ⟨page, row, hpage, hshows, hrows, hnext⟩ := minutePage_page hsize d instrument range lastAt
  rw [hlist]
  refine ⟨page, row, hpage, hshows, hrows, hnext.imp_right ?_⟩
  rintro ⟨c, r, hc, hrow, hencode⟩
  exact ⟨c, r, hc, hrow, fun d' hd' =>
    ⟨minuteInstrument_grows hd' hi, Or.inr ⟨c, r.1.barStartTime, rfl, rfl, hencode⟩⟩⟩

/-- Following the cursors of `list_minute` loses and repeats nothing. -/
theorem listMinute_paginates (q : MinuteQuery) (hsize : 1 ≤ q.pageSize) (d : Db cfg ν)
    {page : MinuteListResponse ν} (h : listMinute q d none = .ok page) :
    Paginates (listMinute q) (·.page.pagination.nextCursor) (·.page.data)
      (fun page => ∀ range, firstRange d q = .ok (some range) → MinuteShows q range page)
      MinuteBefore Grows (MinuteInScope q d) d := by
  obtain ⟨instrument, hi, h⟩ := ok_bind h
  obtain ⟨hfound, hid⟩ := minuteInstrument_found hi
  obtain ⟨_, hnone, h⟩ := ok_bind h
  cases hnone
  obtain ⟨range?, hfirst, h⟩ := ok_bind h
  have hlist : listMinute q d none = .ok page := by
    unfold listMinute
    rw [hi, hfirst]
    exact h
  cases range? with
  | none =>
    -- without a bar there is nothing in scope, and no second page
    cases ok_pure h
    have hfollow : ∀ ds, follow (listMinute q) (·.page.pagination.nextCursor) (d :: ds) none =
        .ok ([⟨⟨[], ⟨q.pageSize, none⟩⟩, ⟨none, none, .latestAvailable⟩⟩], none) := by
      intro ds
      unfold follow
      rw [hlist]
      rfl
    have hscope : ∀ t r, ¬ MinuteInScope q d t r := by
      rintro t r ⟨_, _, range, hrange, _⟩
      rw [hfirst] at hrange
      cases hrange
    refine ⟨fun ds _ => ⟨_, _, hfollow ds, fun _ _ range hrange => ?_, .nil, by simp, fun _ r hr => ?_,
      fun _ _ _ => rfl⟩, 1, _, hfollow [], .nil, fun r => ?_⟩
    · rw [hfirst] at hrange
      cases hrange
    · exact absurd (hr d List.mem_cons_self) (hscope d r)
    · exact ⟨fun hr => (by cases hr), fun hr => absurd hr (hscope d r)⟩
  | some range =>
    have hshows : ∀ page : MinuteListResponse ν, (∀ r, firstRange d q = .ok (some r) →
        MinuteShows q r page) ↔ MinuteShows q range page := fun page =>
      ⟨fun hall => hall range hfirst, fun hs r hr => by
        rw [hfirst] at hr
        cases hr
        exact hs⟩
    simp only [hshows]
    refine (listMinute_serves q hsize (rangeOf_firstRange hi hfirst) hi).paginates hsize
      ⟨hi, Or.inl ⟨rfl, rfl, hfirst⟩⟩ (Grows.refl d) (fun t ht r => ?_) fun a b => minuteKey_lt.mp
    rw [mem_minuteRows (ht.instruments _ hfound) hid]
    unfold MinuteInScope
    refine and_congr_right fun _ => and_congr_right fun _ => ⟨fun hdates => ⟨range, hfirst, hdates⟩, ?_⟩
    rintro ⟨range', hrange, hdates⟩
    rw [hfirst] at hrange
    cases hrange
    exact hdates

end FinDB.Serve
