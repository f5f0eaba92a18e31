import Mathlib.Data.List.Sort
import FinDB.Lib.Machine
import FinDB.Calendar.Rows

/-! # The lifecycle of a calendar year

Previews become draft revisions, a single day is edited by cloning the latest
revision, a draft is published and a superseded revision is rolled back to by
cloning it again. Every call holds the lock of its market while it reads and
writes, so one call is one step. -/
namespace FinDB.Calendar
open FinDB.Lib

/-- `_text(value, max_length)` and `str.upper`: no result depends on their tables. -/
structure Config where
  text : Option String → Nat → Option String
  upper : String → String

/-! ## Candidate rows -/

/-- The row `_apply_rows` keeps of an input row. -/
def DayInput.normalized (cfg : Config) (row : DayInput) : DayInput :=
  { row with
    holidayName := cfg.text row.holidayName 100
    description := cfg.text row.description 2000
    sessionOpen := if row.status == .opened then row.sessionOpen else none
    sessionClose := if row.status == .opened then row.sessionClose else none }

/-- The loop of `_apply_rows`; `seen` are the dates before. -/
def normalizeRows (cfg : Config) (year : Int) : List Date → List DayInput → Except Err (List DayInput)
  | _, [] => .ok []
  | seen, row :: rows => do
    ensure (decide (InYear year row.tradeDate)) (.outOfYear row.tradeDate year)
    ensure (!seen.contains row.tradeDate) (.duplicateDate row.tradeDate)
    let rest ← normalizeRows cfg year (row.tradeDate :: seen) rows
    return row.normalized cfg :: rest

/-- `_apply_rows`. -/
def applyRows (cfg : Config) (year : Int) (market : Market) (rows : List DayInput)
    (mode : CoverageMode) : Except Err (List DayInput) := do
  ensure (!((market.market == "HK" || market.market == "TAIFEX") && mode != .fullYear))
    (.calendar "HK and TAIFEX require explicit full-year exchange dates")
  let normalized ← normalizeRows cfg year [] rows
  match mode with
  | .fullYear =>
    ensure (normalized.length == daysIn year)
      (.calendar "full_year input must contain every calendar date exactly once")
    return normalized.insertionSort fun x y => x.tradeDate ≤ y.tradeDate
  | .exceptions =>
    -- every key of the update is a date of the year, so the order is the year's
    return (allDays year market).map fun d =>
      (normalized.find? (·.tradeDate == d.tradeDate)).getD d

/-! ## Previews -/

/-- `ensure_market_for_edit`. -/
def ensureMarketForEdit (market : String) (s : State) : Except Err (State × Market) :=
  match s.markets.find? market with
  | some existing => .ok (s, existing)
  | none => do
    let fixed ← need (fixedMarket market) (.value "unsupported calendar market")
    let row : Market := ⟨market, fixed.timezone, [5, 6], some fixed.normalOpen,
      some fixed.normalClose, true⟩
    let markets ← need (s.markets.insert? row) (.integrity "calendar_market_pkey")
    return ({ s with markets }, row)

/-- `upsert_calendar_market`: any column but the key may change. -/
def upsertMarket (row : Market) (s : State) : State :=
  match s.markets.insert? row with
  | some markets => { s with markets }
  | none => { s with markets := s.markets.modify row.market fun m => { row with market := m.market } }

structure PreviewRequest where
  market : String
  year : Int
  coverageMode : CoverageMode
  inputFormat : String
  days : List DayInput
  sourceSha256 : Option String
  sourceFilename : Option String
deriving DecidableEq, Repr

/-- `create_preview`. -/
def createPreview (cfg : Config) (now : Instant) (batchId : Uuid) (market : Market)
    (r : PreviewRequest) (rows : List DayInput) (s : State) : Except Err State := do
  let batches ← need
    (s.batches.insert?
      { batchId, market := market.market, year := r.year, inputFormat := r.inputFormat,
        sourceFilename := cfg.text r.sourceFilename 255, sourceSha256 := r.sourceSha256,
        candidateRows := rows, baseRevision := s.currentRevision market.market r.year,
        status := .previewed, expiresAt := now + 30 * minute })
    (.integrity "calendar_import_batch_pkey")
  return { s with batches }

/-- `preview_calendar_json` and `preview_twse_calendar_csv`, once the body is parsed. -/
def preview (cfg : Config) (now : Instant) (batchId : Uuid) (r : PreviewRequest) (s : State) :
    Except Err State := do
  let (s, market) ← ensureMarketForEdit r.market s
  ensure market.active (.http 404 "Active calendar market not found")
  let rows ← applyRows cfg r.year market r.days r.coverageMode
  createPreview cfg now batchId market r rows s

/-! ## New revisions -/

/-- `add_all` of the days: `uq_calendar_revision_day` refuses a repeated date. -/
def dayTable (days : List RevisionDay) : Except Err (Table RevisionDay.tradeDate) :=
  if h : (days.map (·.tradeDate)).Nodup then .ok ⟨days, h⟩
  else .error (.integrity "uq_calendar_revision_day")

def addRevision (r : Revision) (s : State) : Except Err State := do
  let revisions ← need (s.revisions.insert? r) (.integrity "calendar_year_revision_pkey")
  return { s with revisions }

/-- The day a candidate row becomes. -/
def DayInput.toDay (row : DayInput) (sourceKind : String) : RevisionDay where
  tradeDate := row.tradeDate
  dayStatus := row.status
  isOpen := row.status == .opened
  sessionOpen := row.sessionOpen
  sessionClose := row.sessionClose
  holidayName := row.holidayName
  description := row.description
  sourceKind := sourceKind

/-- The draft of a preview. -/
def ImportBatch.draft (batch : ImportBatch) (revisionId : Uuid) (market : Market) (current : Nat)
    (days : Table RevisionDay.tradeDate) : Revision where
  revisionId := revisionId
  market := batch.market
  year := batch.year
  revision := current + 1
  status := .draft
  expectedDays := daysIn batch.year
  actualDays := batch.candidateRows.length
  timezone := market.timezone
  sourceKind := batch.inputFormat
  sourceSha256 := batch.sourceSha256
  sourceFilename := batch.sourceFilename
  publishedAt := none
  publishedBy := none
  days := days

/-- The revision an applied preview created. -/
def State.createdBy (s : State) (batch : ImportBatch) : Option Revision :=
  s.revisions.rows.find? fun r => r.of batch.market batch.year &&
    r.revision == batch.baseRevision + 1 && r.sourceKind == batch.inputFormat &&
    r.sourceSha256 == batch.sourceSha256

/-- `apply_preview`. -/
def applyPreview (now : Instant) (revisionId batchId : Uuid) (expected : Nat) (s : State) :
    Except Err (State × Revision) := do
  let batch ← need (s.batches.find? batchId) (.calendar "preview is unavailable or expired")
  if batch.status == .applied then do
    ensure (expected == batch.baseRevision) (.conflict "calendar changed since preview")
    let existing ← need (s.createdBy batch) (.calendar "applied preview revision is unavailable")
    return (s, existing)
  else do
    ensure (decide (now < batch.expiresAt)) (.calendar "preview is unavailable or expired")
    let market ← need (s.markets.find? batch.market) (.value "No row was found")
    let current := s.currentRevision batch.market batch.year
    ensure (expected == batch.baseRevision && current == expected)
      (.conflict "calendar changed since preview")
    let days ← dayTable (batch.candidateRows.map (·.toDay batch.inputFormat))
    let created := batch.draft revisionId market current days
    let s ← addRevision created s
    return ({ s with batches := s.batches.modify batchId ({ · with status := .applied }) }, created)

/-! ## Editing one day -/

/-- The replacement of the edited day. -/
def DayInput.manual (replacement : DayInput) (date : Date) : RevisionDay where
  tradeDate := date
  dayStatus := replacement.status
  isOpen := replacement.status == .opened
  sessionOpen := if replacement.status == .opened then replacement.sessionOpen else none
  sessionClose := if replacement.status == .opened then replacement.sessionClose else none
  holidayName := replacement.holidayName
  description := replacement.description
  sourceKind := "manual"

/-- `source_values` and the number of the new revision. -/
def cloneSource (market : Market) (year : Int) (expected : Nat) (s : State) :
    Except Err (List RevisionDay × Nat) :=
  match s.latestRevision market.market year with
  | none => do
    ensure (expected == 0) (.conflict "calendar changed before manual edit")
    return ((allDays year market).map (·.toDay "market_default"), 1)
  | some current => do
    ensure (current.revision == expected) (.conflict "calendar changed before manual edit")
    ensure (current.days.rows.length == daysIn year) (.calendar "current revision is incomplete")
    return (current.days.rows.map fun d => { d with isOpen := d.dayStatus == .opened },
      current.revision + 1)

/-- `clone_with_day_change`. -/
def cloneWithDayChange (revisionId : Uuid) (market : String) (date : Date) (expected : Nat)
    (replacement : DayInput) (s : State) : Except Err (State × Revision) := do
  let year := yearOf date
  let market ← need (s.markets.find? market) (.calendar "calendar market was not found")
  let (source, next) ← cloneSource market year expected s
  ensure (source.any (·.tradeDate == date))
    (.calendar "date is outside the managed calendar revision")
  let days ← dayTable (source.map fun d =>
    if d.tradeDate = date then replacement.manual d.tradeDate else d)
  let created : Revision :=
    { revisionId, market := market.market, year, revision := next, status := .draft,
      expectedDays := daysIn year, actualDays := source.length, timezone := market.timezone,
      sourceKind := "manual", sourceSha256 := none, sourceFilename := none, publishedAt := none,
      publishedBy := none, days }
  let s ← addRevision created s
  return (s, created)

/-- `edit_calendar_day`. -/
def editDay (revisionId : Uuid) (market : String) (date : Date) (expected : Nat)
    (replacement : DayInput) (s : State) : Except Err (State × Revision) := do
  let (s, _) ← ensureMarketForEdit market s
  cloneWithDayChange revisionId market date expected replacement s

/-! ## Publishing and rolling back -/

/-- The previous published revision of the year gives way. -/
def State.supersede (s : State) (market : String) (year : Int) : State :=
  match s.publishedRevision market year with
  | none => s
  | some previous =>
    { s with revisions := s.revisions.modify previous.revisionId ({ · with status := .superseded }) }

def State.markPublished (s : State) (revisionId : Uuid) (now : Instant)
    (publishedBy : Option String) : State :=
  { s with revisions := s.revisions.modify revisionId fun r =>
      { r with status := .published, publishedAt := some now, publishedBy } }

/-- `publish_revision`. -/
def publishRevision (now : Instant) (market : String) (year : Int) (expected : Nat)
    (publishedBy : Option String) (s : State) : Except Err State := do
  let revision ← need
    ((s.latestRevision market year).filter (·.revision == expected))
    (.conflict "calendar changed before publish")
  if revision.status == .published then return s
  else do
    ensure (revision.status == .draft)
      (.conflict "only the latest draft revision can be published")
    ensure (revision.actualDays == daysIn year && revision.days.rows.length == daysIn year)
      (.calendar "cannot publish incomplete calendar year")
    return (s.supersede market year).markPublished revision.revisionId now publishedBy

/-- The clone a rollback publishes. -/
def Revision.rolledBack (target : Revision) (revisionId : Uuid) (number : Nat) (now : Instant)
    (publishedBy : Option String) : Revision :=
  { target with
    revisionId, revision := number, status := .published, expectedDays := daysIn target.year
    actualDays := target.days.rows.length, sourceKind := "rollback", publishedAt := some now
    publishedBy
    days := target.days.update (fun _ => true) ({ · with sourceKind := "rollback" }) }

/-- `rollback_revision`. -/
def rollbackRevision (now : Instant) (revisionId : Uuid) (market : String) (year : Int)
    (targetRevision expected : Nat) (publishedBy : Option String) (s : State) :
    Except Err (State × Revision) := do
  let _ ← need (s.markets.find? market) (.calendar "calendar market was not found")
  let current ← need ((s.latestRevision market year).filter (·.revision == expected))
    (.conflict "calendar changed before rollback")
  let target ← need
    (s.revisions.rows.find? fun r => r.of market year && r.revision == targetRevision)
    (.conflict "calendar rollback revision was not found")
  ensure (decide (target.revision < current.revision) && target.status == .superseded)
    (.calendar "rollback target must be an older published revision")
  ensure (target.actualDays == daysIn year && target.days.rows.length == daysIn year)
    (.calendar "cannot roll back to an incomplete calendar year")
  let created := target.rolledBack revisionId (current.revision + 1) now publishedBy
  let s ← addRevision created (s.supersede market year)
  return (s, created)

/-! ## The machine -/

inductive Op where
  | upsertMarket (row : Market)
  | preview (now : Instant) (batchId : Uuid) (r : PreviewRequest)
  | applyPreview (now : Instant) (revisionId batchId : Uuid) (expected : Nat)
  | editDay (revisionId : Uuid) (market : String) (date : Date) (expected : Nat)
      (replacement : DayInput)
  | publish (now : Instant) (market : String) (year : Int) (expected : Nat)
      (publishedBy : Option String)
  | rollback (now : Instant) (revisionId : Uuid) (market : String) (year : Int)
      (targetRevision expected : Nat) (publishedBy : Option String)

variable (cfg : Config)

/-- The state an operation leaves. -/
def apply : Op → State → State
  | .upsertMarket row, s => Calendar.upsertMarket row s
  | .preview now batchId r, s => settled s (Calendar.preview cfg now batchId r s)
  | .applyPreview now revisionId batchId expected, s =>
    settled s ((Calendar.applyPreview now revisionId batchId expected s).map (·.1))
  | .editDay revisionId market date expected replacement, s =>
    settled s ((Calendar.editDay revisionId market date expected replacement s).map (·.1))
  | .publish now market year expected publishedBy, s =>
    settled s (publishRevision now market year expected publishedBy s)
  | .rollback now revisionId market year target expected publishedBy, s =>
    settled s ((rollbackRevision now revisionId market year target expected publishedBy s).map (·.1))

/-- Any finite sequence of operations. -/
def Steps : State → State → Prop := StepsIf (apply cfg) fun _ _ => True

/-- A state of some run. -/
def Reachable (s : State) : Prop := Steps cfg State.init s

end FinDB.Calendar
