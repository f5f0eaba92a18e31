import Mathlib.Tactic.Linarith
import FinDB.Calendar.Effective
import FinDB.ProviderWork.Created

/-! # Previewing a backfill

`preview_request` answers without writing what `create_request` would do. Both
derive today, the window and the calendar for themselves; FactSet is treated
differently by the two. -/
namespace FinDB.ProviderWork
open FinDB.Lib

variable {cfg : Config} {s t : Db}

/-! ## The preview -/

/-- `today` as `preview_request` defaults it. -/
def previewToday (cfg : Config) (utc : Instant) : Date :=
  match cfg.provider with
  | .shioaji | .taifex => providerCurrentDate cfg utc
  | .twelveData | .finlab | .factset => (cfg.clock.localTime "UTC" utc).date

/-- `skip_non_trading`: no policy is asked for FactSet. -/
def previewSkips (cfg : Config) : Bool :=
  match cfg.provider with
  | .twelveData | .finlab | .shioaji | .taifex => historicalSkips cfg
  | .factset => false

/-- A date, whether it is acquirable, and why not. -/
structure PreviewDay where
  date : Date
  acquirable : Bool
  reason : Option String
deriving DecidableEq, Repr

def outsideLatest (cfg : Config) : String := s!"outside_latest_{maxBackfillDays cfg}_days"

/-- `scope_reason`. -/
def scopeReason (cfg : Config) (today : Date) (datasetKey : DatasetKey) (start stop : Date)
    (s : Db) : Option String :=
  if stop < start then some "date_order_invalid"
  else if ¬ InWindow cfg today start stop then some (outsideLatest cfg)
  else if ((s.registry.datasets datasetKey).filter (·.isActive)).isNone then some "dataset_inactive"
  else if !supportsBackfill cfg.provider datasetKey then some "provider_dataset_unsupported"
  else if !s.registry.schedulerDatasets datasetKey then some "provider_scope_inactive"
  else none

/-- The row of one date. -/
def previewDay (cfg : Config) (scope : Option String) (rows : List CalendarDay) (current : Date) :
    Except Err PreviewDay :=
  match scope with
  | some reason => .ok ⟨current, false, some reason⟩
  | none =>
    if previewSkips cfg then do
      let d ← need (rows.find? (·.tradeDate == current)) (.value "KeyError")
      return if d.isOpen then ⟨current, true, none⟩ else ⟨current, false, some "market_closed"⟩
    else .ok ⟨current, true, none⟩

/-- `calendar_rows`: without a dataset there is no market to ask. -/
def previewCalendar (datasetKey : DatasetKey) (start stop : Date) (s : Db) :
    Except Err (List CalendarDay) :=
  if (s.registry.datasets datasetKey).isSome then
    (s.registry.effectiveDays datasetKey start stop).mapError Err.value
  else .ok []

/-- `preview_request`: the scope reason and the days. -/
def previewRequest (cfg : Config) (utc : Instant) (datasetKey : DatasetKey) (start stop : Date)
    (today : Option Date) (s : Db) : Except Err (Option String × List PreviewDay) := do
  let scope := scopeReason cfg (today.getD (previewToday cfg utc)) datasetKey start stop s
  if stop < start then return (scope, [])
  else do
    let rows ← previewCalendar datasetKey start stop s
    let days ← (dateRange start stop).mapM (previewDay cfg scope rows)
    return (scope, days)

/-! ## The calendar both read -/

/-- The columns of an effective day a snapshot is read for. Every market of a
backfill has a regular close. -/
def calendarDay (d : Calendar.EffectiveDay) : CalendarDay :=
  ⟨d.tradeDate, d.isOpen, d.regularClose.getD 0, d.timezone⟩

/-- `effective_days` over a calendar store. -/
def calendarDays (cal : Calendar.Config) (calendar : Calendar.State) (market : String)
    (start stop : Date) : Except String (List CalendarDay) :=
  (Calendar.effectiveDays cal calendar market start stop).map (·.map calendarDay)

theorem calendarDays_dates {cal : Calendar.Config} {calendar : Calendar.State} {market : String}
    {start stop : Date} {days : List CalendarDay}
    (h : calendarDays cal calendar market start stop = .ok days) :
    days.map (·.tradeDate) = dateRange start stop := by
  unfold calendarDays at h
  cases hd : Calendar.effectiveDays cal calendar market start stop with
  | error e =>
    rw [hd] at h
    cases h
  | ok all =>
    rw [hd] at h
    cases h
    rw [List.map_map]
    exact Calendar.effectiveDays_dates hd

/-! ## What each reports of a date -/

/-- The date counts as acquirable when closed days are left out. -/
def OpenDate (skips : Bool) (days : List CalendarDay) (date : Date) : Prop :=
  ∃ d ∈ days, d.tradeDate = date ∧ (skips && !d.isOpen) = false

def ClosedDate (skips : Bool) (days : List CalendarDay) (date : Date) : Prop :=
  ∃ d ∈ days, d.tradeDate = date ∧ (skips && !d.isOpen) = true

/-- The item created for a date has the status. -/
def Creates (s t : Db) (date : Date) (status : ItemStatus) : Prop :=
  ∃ i ∈ t.items, i ∉ s.items ∧ i.tradeDate = date ∧ i.status = status

/-- The preview's dates are those of the created items. -/
def DatesAgree (days : List PreviewDay) (s t : Db) : Prop :=
  ∀ date, ((∃ d ∈ days, d.date = date ∧ d.acquirable = true) ↔ Creates s t date .pending) ∧
    ((∃ d ∈ days, d.date = date ∧ d.reason = some "market_closed") ↔
      Creates s t date .skippedCalendar)

theorem mem_newItems {utc : Instant} {requestId : Uuid} {ids : Nat → Uuid × Uuid × Uuid}
    {days : List CalendarDay} {x : Item} (h : x ∈ newItems cfg utc requestId ids days) :
    ∃ d ∈ days, ∃ itemId, x = newItem cfg utc requestId itemId d := by
  obtain ⟨⟨d, i⟩, hd, rfl⟩ := List.mem_map.mp h
  exact ⟨d, (List.mem_zipIdx' hd).2 ▸ List.getElem_mem _, (ids i).1, rfl⟩

theorem newItems_of_mem {utc : Instant} {requestId : Uuid} {ids : Nat → Uuid × Uuid × Uuid}
    {days : List CalendarDay} {d : CalendarDay} (hd : d ∈ days) :
    ∃ itemId, newItem cfg utc requestId itemId d ∈ newItems cfg utc requestId ids days := by
  obtain ⟨n, hlt, rfl⟩ := List.getElem_of_mem hd
  refine ⟨(ids n).1, List.mem_map.mpr ⟨(days[n], n), ?_, rfl⟩⟩
  exact List.mk_mem_zipIdx_iff_getElem?.mpr (List.getElem?_eq_getElem hlt)

/-- The created items of a date, by the calendar. -/
theorem Created.creates {utc : Instant} {requestId : Uuid} {ids : Nat → Uuid × Uuid × Uuid}
    {r : CreateRequest} {days : List CalendarDay} (h : Created cfg utc requestId ids r days s t)
    (date : Date) (status : ItemStatus) :
    Creates s t date status ↔ ∃ d ∈ days, d.tradeDate = date ∧
      (if historicalSkips cfg && !d.isOpen then ItemStatus.skippedCalendar else .pending) =
        status := by
  constructor
  · rintro ⟨i, hi, hnew, rfl, rfl⟩
    rcases (h.items i).mp hi with hold | hx
    · exact absurd hold hnew
    · obtain ⟨d, hd, itemId, rfl⟩ := mem_newItems hx
      exact ⟨d, hd, rfl, rfl⟩
  · rintro ⟨d, hd, rfl, rfl⟩
    obtain ⟨itemId, hx⟩ := @newItems_of_mem cfg utc requestId ids days d hd
    exact ⟨_, (h.items _).mpr (Or.inr hx), fun hold => h.fresh _ hx _ hold rfl, rfl, rfl⟩

theorem Created.pending {utc : Instant} {requestId : Uuid} {ids : Nat → Uuid × Uuid × Uuid}
    {r : CreateRequest} {days : List CalendarDay} (h : Created cfg utc requestId ids r days s t)
    (date : Date) : Creates s t date .pending ↔ OpenDate (historicalSkips cfg) days date := by
  rw [h.creates]
  refine exists_congr fun d => and_congr_right fun _ => and_congr_right fun _ => ?_
  cases historicalSkips cfg && !d.isOpen <;> simp

theorem Created.skipped {utc : Instant} {requestId : Uuid} {ids : Nat → Uuid × Uuid × Uuid}
    {r : CreateRequest} {days : List CalendarDay} (h : Created cfg utc requestId ids r days s t)
    (date : Date) : Creates s t date .skippedCalendar ↔ ClosedDate (historicalSkips cfg) days date := by
  rw [h.creates]
  refine exists_congr fun d => and_congr_right fun _ => and_congr_right fun _ => ?_
  cases historicalSkips cfg && !d.isOpen <;> simp

/-- The preview row of a calendar day when the scope is open. -/
def previewed (cfg : Config) (d : CalendarDay) : PreviewDay :=
  if previewSkips cfg && !d.isOpen then ⟨d.tradeDate, false, some "market_closed"⟩
  else ⟨d.tradeDate, true, none⟩

theorem previewDay_open {days : List CalendarDay} (hnodup : (days.map (·.tradeDate)).Nodup)
    {d : CalendarDay} (hd : d ∈ days) :
    previewDay cfg none days d.tradeDate = .ok (previewed cfg d) := by
  have hfind : days.find? (·.tradeDate == d.tradeDate) = some d := by
    cases hf : days.find? (·.tradeDate == d.tradeDate) with
    | none => simpa using List.find?_eq_none.mp hf d hd
    | some x =>
      have hx : x.tradeDate = d.tradeDate := by simpa using List.find?_some hf
      rw [List.inj_on_of_nodup_map hnodup (List.mem_of_find?_eq_some hf) hd hx]
  unfold previewDay previewed
  simp only [hfind]
  cases previewSkips cfg with
  | false => rfl
  | true =>
    change Except.ok (if d.isOpen = true then _ else _) = _
    cases d.isOpen <;> rfl

theorem preview_acquirable {days : List CalendarDay} (date : Date) :
    (∃ p ∈ days.map (previewed cfg), p.date = date ∧ p.acquirable = true) ↔
      OpenDate (previewSkips cfg) days date := by
  simp only [List.mem_map, exists_exists_and_eq_and]
  refine exists_congr fun d => and_congr_right fun _ => ?_
  unfold previewed
  cases previewSkips cfg && !d.isOpen <;> simp

theorem preview_closed {days : List CalendarDay} (date : Date) :
    (∃ p ∈ days.map (previewed cfg), p.date = date ∧ p.reason = some "market_closed") ↔
      ClosedDate (previewSkips cfg) days date := by
  simp only [List.mem_map, exists_exists_and_eq_and]
  refine exists_congr fun d => and_congr_right fun _ => ?_
  unfold previewed
  cases previewSkips cfg && !d.isOpen <;> simp

/-! ## The texts of the window -/

def windowMessage (cfg : Config) : String :=
  s!"backfill dates must be within the latest {(maxBackfillDays cfg : Int)} calendar days"

theorem take_append {a b : String} {n : Nat} (h : n ≤ a.toList.length) :
    (a ++ b).toList.take n = a.toList.take n := by
  rw [String.toList_append, List.take_append_of_le_length h]

/-- A text with another beginning. -/
theorem windowMessage_ne {m : String} (h : m.toList.take 14 ≠ "backfill dates".toList) :
    m ≠ windowMessage cfg := by
  rintro rfl
  refine h ?_
  unfold windowMessage
  rw [take_append, take_append]
  · rfl
  · decide
  · rw [String.toList_append, List.length_append]
    exact Nat.le_add_right_of_le (by decide)

theorem outsideLatest_ne {m : String} (h : m.toList.take 14 ≠ "outside_latest".toList) :
    m ≠ outsideLatest cfg := by
  rintro rfl
  refine h ?_
  unfold outsideLatest
  rw [take_append, take_append]
  · rfl
  · decide
  · rw [String.toList_append, List.length_append]
    exact Nat.le_add_right_of_le (by decide)

/-! ## The window -/

/-- Errors that are no backfill message. -/
def Err.other : Err → Prop
  | .backfill _ => False
  | _ => True

theorem addItem_error {item : Item} {e : Err} (h : addItem s item = .error e) : e.other := by
  unfold addItem at h
  rcases error_bind h with h | ⟨_, _, h⟩
  · rw [← (need_error.mp h).2]
    trivial
  · cases h

theorem addAttempt_error {attemptId workId : Uuid} {n : Nat} {notBefore : Instant} {drain : Bool}
    {proof : Option Proof} {e : Err}
    (h : addAttempt attemptId workId n notBefore drain proof s = .error e) : e.other := by
  unfold addAttempt at h
  rcases error_bind h with h | ⟨_, _, h⟩
  · rw [← (ensure_error.mp h).2]
    trivial
  rcases error_bind h with h | ⟨_, _, h⟩
  · rw [← (need_error.mp h).2]
    trivial
  · cases h

theorem enqueue_error {utc : Instant} {ids : Uuid × Uuid} {r : EnqueueRequest} {e : Err}
    (h : enqueue utc ids r s = .error e) : e.other := by
  unfold enqueue at h
  rcases error_bind h with h | ⟨_, _, h⟩
  · rw [← (ensure_error.mp h).2]
    trivial
  split at h
  · rcases error_bind h with h | ⟨_, _, h⟩
    · rw [← (ensure_error.mp h).2]
      trivial
    · cases h
  · rcases error_bind h with h | ⟨_, _, h⟩
    · rw [← (need_error.mp h).2]
      trivial
    rcases error_bind h with h | ⟨_, _, h⟩
    · exact addAttempt_error h
    · cases h

theorem enqueueItem_error {utc : Instant} {datasetKey : DatasetKey} {row : (Uuid × Uuid) × Item}
    {e : Err} (h : enqueueItem cfg utc datasetKey s row = .error e) : e.other := by
  unfold enqueueItem at h
  split at h
  · rcases error_bind h with h | ⟨_, _, h⟩
    · exact enqueue_error h
    · cases h
  · cases h

/-- The refusals of the FactSet gate. -/
theorem requestUniverse_error {utc : Instant} {datasetKey : DatasetKey} {today : Date}
    {dataset : Dataset} {e : Err} (h : requestUniverse cfg utc datasetKey today dataset s = .error e) :
    e ≠ .backfill (windowMessage cfg) := by
  unfold requestUniverse at h
  split at h
  · rcases error_bind h with h | ⟨_, _, h⟩
    · rw [← (ensure_error.mp h).2]
      exact fun heq => windowMessage_ne (by decide) (Err.backfill.inj heq)
    rcases error_bind h with h | ⟨_, _, h⟩
    · rw [← (need_error.mp h).2]
      exact fun heq => windowMessage_ne (by decide) (Err.backfill.inj heq)
    rcases error_bind h with h | ⟨_, _, h⟩
    · rw [← (ensure_error.mp h).2]
      exact fun heq => windowMessage_ne (by decide) (Err.backfill.inj heq)
    · cases h
  · cases h

/-- Inside the window the call is never refused for it. -/
theorem createRequest_inside {utc : Instant} {requestId : Uuid} {ids : Nat → Uuid × Uuid × Uuid}
    {r : CreateRequest} (hin : InWindow cfg (r.todayAt cfg utc) r.startDate r.endDate) :
    createRequest cfg utc requestId ids r s ≠ .error (.backfill (windowMessage cfg)) := by
  have hother : ∀ e : Err, e.other → e ≠ .backfill (windowMessage cfg) := by
    rintro e he rfl
    exact he
  intro h
  unfold createRequest at h
  rcases error_bind h with h | ⟨_, _, h⟩
  · exact absurd hin (of_decide_eq_false (ensure_error.mp h).1)
  rcases error_bind h with h | ⟨_, _, h⟩
  · have hlong := of_decide_eq_false (ensure_error.mp h).1
    obtain ⟨hlo, hhi⟩ := hin
    exact hlong (by linarith)
  split at h
  · rcases error_bind h with h | ⟨_, _, h⟩
    · exact absurd (ensure_error.mp h).2 (hother _ trivial)
    · cases h
  · rcases error_bind h with h | ⟨dataset, _, h⟩
    · exact windowMessage_ne (by decide) (Err.backfill.inj (need_error.mp h).2)
    rcases error_bind h with h | ⟨_, _, h⟩
    · exact windowMessage_ne (by decide) (Err.backfill.inj (ensure_error.mp h).2)
    rcases error_bind h with h | ⟨_, _, h⟩
    · exact windowMessage_ne (by decide) (Err.backfill.inj (ensure_error.mp h).2)
    rcases error_bind h with h | ⟨snapshot, _, h⟩
    · exact requestUniverse_error h rfl
    rcases error_bind h with h | ⟨days, _, h⟩
    · obtain ⟨m, _, he⟩ := mapError_error h
      exact absurd he (hother _ trivial)
    rcases error_bind h with h | ⟨requests, _, h⟩
    · exact absurd (need_error.mp h).2 (hother _ trivial)
    rcases error_bind h with h | ⟨s', _, h⟩
    · exact hother _ (foldlM_error (fun _ _ _ => addItem_error) h) rfl
    · exact hother _ (foldlM_error (fun _ _ _ => enqueueItem_error) h) rfl

theorem createRequest_window {utc : Instant} {requestId : Uuid} {ids : Nat → Uuid × Uuid × Uuid}
    {r : CreateRequest} :
    createRequest cfg utc requestId ids r s = .error (.backfill (windowMessage cfg)) ↔
      ¬ InWindow cfg (r.todayAt cfg utc) r.startDate r.endDate :=
  ⟨fun h hin => createRequest_inside hin h, createRequest_outside⟩

theorem scopeReason_window {today start stop : Date} {datasetKey : DatasetKey}
    (hrange : start ≤ stop) :
    scopeReason cfg today datasetKey start stop s = some (outsideLatest cfg) ↔
      ¬ InWindow cfg today start stop := by
  unfold scopeReason
  rw [if_neg (not_lt.mpr hrange)]
  by_cases hin : InWindow cfg today start stop
  · rw [if_neg (not_not.mpr hin)]
    refine iff_of_false ?_ (not_not.mpr hin)
    split
    · exact fun h => outsideLatest_ne (by decide) (Option.some.inj h)
    · split
      · exact fun h => outsideLatest_ne (by decide) (Option.some.inj h)
      · split
        · exact fun h => outsideLatest_ne (by decide) (Option.some.inj h)
        · exact fun h => nomatch h
  · rw [if_pos hin]
    exact iff_of_true rfl hin

/-! ## Preview and creation -/

/-- `today` of a preview of the same request. -/
def CreateRequest.previewTodayAt (cfg : Config) (utc : Instant) (r : CreateRequest) : Date :=
  r.today.getD (previewToday cfg utc)

/-- The preview of a request. -/
def CreateRequest.preview (cfg : Config) (utc : Instant) (r : CreateRequest) (s : Db) :
    Except Err (Option String × List PreviewDay) :=
  previewRequest cfg utc r.datasetKey r.startDate r.endDate r.today s

theorem previewTodayAt_eq (utc : Instant) (r : CreateRequest) (h : cfg.provider ≠ .factset) :
    r.previewTodayAt cfg utc = r.todayAt cfg utc := by
  unfold CreateRequest.previewTodayAt CreateRequest.todayAt previewToday requestToday
  cases hp : cfg.provider with
  | factset => exact absurd hp h
  | _ => rfl

theorem previewSkips_eq (h : cfg.provider ≠ .factset) : previewSkips cfg = historicalSkips cfg := by
  unfold previewSkips
  cases hp : cfg.provider with
  | factset => exact absurd hp h
  | _ => rfl

theorem preview_ok {utc : Instant} {r : CreateRequest} {scope : Option String}
    {days : List PreviewDay} (hrange : r.startDate ≤ r.endDate)
    (h : r.preview cfg utc s = .ok (scope, days)) :
    scope = scopeReason cfg (r.previewTodayAt cfg utc) r.datasetKey r.startDate r.endDate s ∧
      ∀ rows, (s.registry.datasets r.datasetKey).isSome = true →
        s.registry.effectiveDays r.datasetKey r.startDate r.endDate = .ok rows →
          (dateRange r.startDate r.endDate).mapM (previewDay cfg scope rows) = .ok days := by
  unfold CreateRequest.preview previewRequest at h
  simp only [if_neg (not_lt.mpr hrange)] at h
  obtain ⟨rows, hrows, h⟩ := ok_bind h
  obtain ⟨answer, hanswer, h⟩ := ok_bind h
  cases ok_pure h
  refine ⟨rfl, fun rows' hdataset hcal => ?_⟩
  unfold previewCalendar at hrows
  rw [if_pos hdataset, hcal] at hrows
  cases hrows
  exact hanswer

/-- A request that passed has a preview scope that only the window can close. -/
theorem Created.scope {utc : Instant} {requestId : Uuid} {ids : Nat → Uuid × Uuid × Uuid}
    {r : CreateRequest} {days : List CalendarDay} (h : Created cfg utc requestId ids r days s t)
    (hrange : r.startDate ≤ r.endDate) (today : Date) :
    scopeReason cfg today r.datasetKey r.startDate r.endDate s =
      if InWindow cfg today r.startDate r.endDate then none else some (outsideLatest cfg) := by
  unfold scopeReason
  rw [if_neg (not_lt.mpr hrange)]
  by_cases hin : InWindow cfg today r.startDate r.endDate
  · simp [hin, h.supported, h.scheduled, Option.isNone_eq_false_iff.mpr h.dataset]
  · simp [hin]

/-- No preview date of a closed scope is one of the created items'. -/
theorem Created.disagrees {utc : Instant} {requestId : Uuid} {ids : Nat → Uuid × Uuid × Uuid}
    {r : CreateRequest} {days : List CalendarDay} (h : Created cfg utc requestId ids r days s t)
    (hne : days ≠ []) (dates : List Date) :
    ¬ DatesAgree (dates.map fun date => ⟨date, false, some (outsideLatest cfg)⟩) s t := by
  intro hagree
  obtain ⟨d, hd⟩ := List.exists_mem_of_ne_nil days hne
  obtain ⟨hopen, hclosed⟩ := hagree d.tradeDate
  cases hskip : historicalSkips cfg && !d.isOpen with
  | false =>
    obtain ⟨p, hp, _, hacquirable⟩ := hopen.mpr ((h.pending _).mpr ⟨d, hd, rfl, hskip⟩)
    obtain ⟨date, _, rfl⟩ := List.mem_map.mp hp
    cases hacquirable
  | true =>
    obtain ⟨p, hp, _, hreason⟩ := hclosed.mpr ((h.skipped _).mpr ⟨d, hd, rfl, hskip⟩)
    obtain ⟨date, _, rfl⟩ := List.mem_map.mp hp
    exact outsideLatest_ne (by decide) (Option.some.inj hreason).symm

/-- Inside the window the dates agree as far as closed days are treated alike. -/
theorem Created.datesAgree_iff {utc : Instant} {requestId : Uuid} {ids : Nat → Uuid × Uuid × Uuid}
    {r : CreateRequest} {days : List CalendarDay} (h : Created cfg utc requestId ids r days s t) :
    DatesAgree (days.map (previewed cfg)) s t ↔
      ∀ date, (OpenDate (previewSkips cfg) days date ↔ OpenDate (historicalSkips cfg) days date) ∧
        (ClosedDate (previewSkips cfg) days date ↔ ClosedDate (historicalSkips cfg) days date) := by
  refine forall_congr' fun date => ?_
  rw [preview_acquirable, preview_closed, h.pending, h.skipped]

theorem alike_of_factset {days : List CalendarDay} (h : cfg.provider = .factset) :
    (∀ date, (OpenDate (previewSkips cfg) days date ↔ OpenDate (historicalSkips cfg) days date) ∧
      (ClosedDate (previewSkips cfg) days date ↔ ClosedDate (historicalSkips cfg) days date)) ↔
      ∀ d ∈ days, d.isOpen = true := by
  simp only [previewSkips, historicalSkips, h]
  constructor
  · intro hall d hd
    cases ho : d.isOpen with
    | true => rfl
    | false =>
      obtain ⟨x, _, _, hx⟩ := (hall d.tradeDate).2.mpr ⟨d, hd, rfl, by simp [ho]⟩
      cases hx
  · intro hall date
    refine ⟨exists_congr fun d => and_congr_right fun hd => ?_,
      exists_congr fun d => and_congr_right fun hd => ?_⟩
    · simp [hall d hd]
    · simp [hall d hd]

variable {cal : Calendar.Config} {calendar : Calendar.State} {market : DatasetKey → String}

/-- Where both return, the dates agree unless FactSet is asked about a range that
is outside the window of the UTC date or has a closed day. -/
theorem datesAgree_iff {utc : Instant} {requestId : Uuid} {ids : Nat → Uuid × Uuid × Uuid}
    {r : CreateRequest} {scope : Option String} {days : List PreviewDay}
    (hcal : ∀ key start stop, s.registry.effectiveDays key start stop =
      calendarDays cal calendar (market key) start stop)
    (hfresh : ∀ q ∈ s.requests, q.requestKey ≠ r.requestKey) (hrange : r.startDate ≤ r.endDate)
    (hpreview : r.preview cfg utc s = .ok (scope, days))
    (hcreate : createRequest cfg utc requestId ids r s = .ok t) :
    DatesAgree days s t ↔ (cfg.provider = .factset →
      InWindow cfg (r.previewTodayAt cfg utc) r.startDate r.endDate ∧
        ∀ rows, calendarDays cal calendar (market r.datasetKey) r.startDate r.endDate = .ok rows →
          ∀ d ∈ rows, d.isOpen = true) := by
  rcases createRequest_ok hcreate with ⟨⟨q, hq, hkey⟩, _⟩ | ⟨rows, h⟩
  · exact absurd hkey (hfresh q hq)
  obtain ⟨hscope, hrows⟩ := preview_ok hrange hpreview
  have hdataset : (s.registry.datasets r.datasetKey).isSome = true :=
    Option.isSome_of_isSome_filter _ _ h.dataset
  have hmap := hrows rows hdataset h.calendar
  have hrowsCal := h.calendar
  rw [hcal] at hrowsCal
  have hdates := calendarDays_dates hrowsCal
  rw [h.scope hrange] at hscope
  by_cases hin : InWindow cfg (r.previewTodayAt cfg utc) r.startDate r.endDate
  · rw [if_pos hin] at hscope
    subst hscope
    have hnodup : (rows.map (·.tradeDate)).Nodup := hdates ▸ nodup_dateRange _ _
    rw [← hdates, mapM_of_ok fun d hd => previewDay_open hnodup hd] at hmap
    cases hmap
    rw [h.datesAgree_iff]
    by_cases hp : cfg.provider = .factset
    · rw [alike_of_factset hp]
      constructor
      · intro hall _
        refine ⟨hin, fun rows' hrows' => ?_⟩
        rw [hrowsCal] at hrows'
        cases hrows'
        exact hall
      · exact fun hall => (hall hp).2 rows hrowsCal
    · rw [previewSkips_eq hp]
      exact iff_of_true (fun _ => ⟨Iff.rfl, Iff.rfl⟩) fun hf => absurd hf hp
  · rw [if_neg hin] at hscope
    subst hscope
    have hall : (dateRange r.startDate r.endDate).mapM
        (previewDay cfg (some (outsideLatest cfg)) rows) =
          .ok ((dateRange r.startDate r.endDate).map fun date =>
            ⟨date, false, some (outsideLatest cfg)⟩) := by
      have hmapM := mapM_of_ok (f := previewDay cfg (some (outsideLatest cfg)) rows) (k := id)
        fun date (_ : date ∈ dateRange r.startDate r.endDate) => rfl
      rwa [List.map_id] at hmapM
    rw [hall] at hmap
    cases hmap
    have hne : rows ≠ [] := by
      rintro rfl
      have hmem := mem_dateRange.mpr ⟨le_refl r.startDate, hrange⟩
      rw [← hdates] at hmem
      cases hmem
    refine iff_of_false (h.disagrees hne _) fun hcond => ?_
    have hp : cfg.provider = .factset := by
      by_contra hp
      exact hin (previewTodayAt_eq utc r hp ▸ h.window)
    exact hin (hcond hp).1

/-- Only the calendar texts of the store's own callers matter here. -/
def plainCalendar : Calendar.Config := ⟨fun o _ => o, id⟩

/-- A cut-over dataset with a one-member universe and an empty calendar store. -/
def cutoverRegistry (provider : Provider) (market : String) : Registry :=
  { bareRegistry provider "hk_equity_eod" with
    datasets := fun _ => some ⟨true, none, some ⟨some "factset", some "twelve_data", some 0⟩⟩
    effectiveDays := fun _ => calendarDays plainCalendar Calendar.State.init market
    schedulerDatasets := fun _ => true
    publishedUniverse := fun _ _ => some ⟨"release", [⟨"member", none, "mapped"⟩]⟩ }

/-- Saturday 7 February 1970, asked for on the following Tuesday. -/
def saturdayRequest (datasetKey : DatasetKey) : CreateRequest := ⟨datasetKey, 37, 37, "request", none⟩

end FinDB.ProviderWork
