import Mathlib.Data.List.MinMax
import FinDB.Lib.Gregorian
import FinDB.Lib.Raise
import FinDB.Lib.Table
import FinDB.Vocabulary

/-! # Managed calendars

Markets, annual revisions with their days, and import previews. The days of a
revision are written in the transaction that adds it, so they stand in its row. -/
namespace FinDB.Calendar
open FinDB.Lib

/-- `day_status`; `opened` is the source's "open". -/
inductive DayStatus where
  | opened | closed | settlementOnly
deriving DecidableEq, Repr

inductive RevisionStatus where
  | draft | published | superseded
deriving DecidableEq, Repr

inductive BatchStatus where
  | previewed | applied
deriving DecidableEq, Repr

inductive CoverageMode where
  | exceptions | fullYear
deriving DecidableEq, Repr

/-- `calendar_market`. -/
structure Market where
  market : String
  timezone : Zone
  weekendDays : List Nat
  defaultSessionOpen : Option Nat
  defaultSessionClose : Option Nat
  active : Bool
deriving DecidableEq, Repr

/-- A candidate row of a preview, or the replacement of one day. -/
structure DayInput where
  tradeDate : Date
  status : DayStatus
  holidayName : Option String
  description : Option String
  sessionOpen : Option Nat
  sessionClose : Option Nat
deriving DecidableEq, Repr

/-- `calendar_revision_day`. -/
structure RevisionDay where
  tradeDate : Date
  dayStatus : DayStatus
  isOpen : Bool
  sessionOpen : Option Nat
  sessionClose : Option Nat
  holidayName : Option String
  description : Option String
  sourceKind : String
deriving DecidableEq, Repr

/-- `calendar_year_revision`; `uq_calendar_revision_day` is the key of `days`. -/
structure Revision where
  revisionId : Uuid
  market : String
  year : Int
  revision : Nat
  status : RevisionStatus
  expectedDays : Nat
  actualDays : Nat
  timezone : Zone
  sourceKind : String
  sourceSha256 : Option String
  sourceFilename : Option String
  publishedAt : Option Instant
  publishedBy : Option String
  days : Table RevisionDay.tradeDate

/-- `calendar_import_batch`. -/
structure ImportBatch where
  batchId : Uuid
  market : String
  year : Int
  inputFormat : String
  sourceFilename : Option String
  sourceSha256 : Option String
  candidateRows : List DayInput
  baseRevision : Nat
  status : BatchStatus
  expiresAt : Instant
deriving DecidableEq, Repr

structure State where
  markets : Table Market.market
  revisions : Table Revision.revisionId
  batches : Table ImportBatch.batchId

def State.init : State := ⟨Table.empty, Table.empty, Table.empty⟩

/-- What the services raise; the endpoints roll back on every one of them. -/
inductive Err where
  | calendar (message : String)
  | outOfYear (date : Date) (year : Int)
  | duplicateDate (date : Date)
  | conflict (message : String)
  | value (message : String)
  | http (status : Nat) (detail : String)
  | integrity (constraint : String)
deriving DecidableEq, Repr

/-! ## Fixed markets -/

structure FixedMarket where
  timezone : Zone
  normalOpen : Nat
  normalClose : Nat
deriving DecidableEq, Repr

/-- `effective_calendar.MARKETS`. -/
def fixedMarket : String → Option FixedMarket
  | "TW" => some ⟨"Asia/Taipei", timeOfDay 9 0, timeOfDay 13 30⟩
  | "US" => some ⟨"America/New_York", timeOfDay 9 30, timeOfDay 16 0⟩
  | "HK" => some ⟨"Asia/Hong_Kong", timeOfDay 9 30, timeOfDay 16 10⟩
  | "CN" => some ⟨"Asia/Shanghai", timeOfDay 9 30, timeOfDay 15 0⟩
  | "TAIFEX" => some ⟨"Asia/Taipei", timeOfDay 8 45, timeOfDay 13 45⟩
  | _ => none

/-! ## Reading the store -/

/-- The revisions of a market and year. -/
def Revision.of (market : String) (year : Int) (r : Revision) : Bool :=
  r.market == market && r.year == year

@[simp] theorem Revision.of_iff {market : String} {year : Int} {r : Revision} :
    r.of market year = true ↔ r.market = market ∧ r.year = year := by
  simp [Revision.of]

/-- `latest_revision`. -/
def State.latestRevision (s : State) (market : String) (year : Int) : Option Revision :=
  (s.revisions.rows.filter (·.of market year)).argmax (·.revision)

theorem State.latestRevision_some {s : State} {market : String} {year : Int} {r : Revision}
    (h : s.latestRevision market year = some r) :
    r ∈ s.revisions ∧ r.market = market ∧ r.year = year ∧
      ∀ q ∈ s.revisions, q.market = market → q.year = year → q.revision ≤ r.revision := by
  obtain ⟨hmem, hof⟩ := List.mem_filter.mp (List.argmax_mem h)
  obtain ⟨hmarket, hyear⟩ := Revision.of_iff.mp hof
  refine ⟨hmem, hmarket, hyear, fun q hq hqm hqy => ?_⟩
  exact List.le_of_mem_argmax (List.mem_filter.mpr ⟨hq, Revision.of_iff.mpr ⟨hqm, hqy⟩⟩) h

theorem State.latestRevision_none {s : State} {market : String} {year : Int}
    (h : s.latestRevision market year = none) :
    ∀ q ∈ s.revisions, q.market = market → q.year ≠ year := by
  intro q hq hqm hqy
  have hmem : q ∈ s.revisions.rows.filter (·.of market year) :=
    List.mem_filter.mpr ⟨hq, Revision.of_iff.mpr ⟨hqm, hqy⟩⟩
  rw [List.argmax_eq_none.mp h] at hmem
  cases hmem

/-- The number of the latest revision, 0 without one. -/
def State.currentRevision (s : State) (market : String) (year : Int) : Nat :=
  ((s.latestRevision market year).map (·.revision)).getD 0

/-- The published revision of a year. -/
def State.publishedRevision (s : State) (market : String) (year : Int) : Option Revision :=
  s.revisions.rows.find? fun r => r.of market year && r.status == .published

/-! ## A whole year of defaults -/

/-- `_all_days`. -/
def allDays (year : Int) (market : Market) : List DayInput :=
  (yearDays year).map fun date =>
    let isOpen := !market.weekendDays.contains (weekday date)
    { tradeDate := date
      status := if isOpen then .opened else .closed
      holidayName := none
      description := none
      sessionOpen := if isOpen then market.defaultSessionOpen else none
      sessionClose := if isOpen then market.defaultSessionClose else none }

/-- Session times only on open days. -/
def DayInput.wellFormed (d : DayInput) : Prop :=
  d.status ≠ .opened → d.sessionOpen = none ∧ d.sessionClose = none

theorem allDays_dates (year : Int) (market : Market) :
    (allDays year market).map (·.tradeDate) = yearDays year := by
  simp [allDays, Function.comp_def]

theorem allDays_wellFormed {year : Int} {market : Market} {d : DayInput}
    (h : d ∈ allDays year market) : d.wellFormed := by
  simp only [allDays, List.mem_map] at h
  obtain ⟨date, _, rfl⟩ := h
  intro hstatus
  simp only at hstatus ⊢
  split
  · rename_i hopen
    rw [if_pos hopen] at hstatus
    exact absurd rfl hstatus
  · exact ⟨rfl, rfl⟩

end FinDB.Calendar
