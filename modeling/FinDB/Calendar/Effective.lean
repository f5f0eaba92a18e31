import Mathlib.Data.List.Nodup
import FinDB.Calendar.History

/-! # The calendar everyone reads

`effective_days` overlays the published days of a market on its weekday defaults.
It refuses a published calendar that repeats a date, leaves its year or has
another time zone; the store never holds one as long as the zone is kept. -/
namespace FinDB.Calendar
open FinDB.Lib

variable {cfg : Config} {s t : State}

/-! ## Reading a range -/

inductive CalendarSource where
  | published | weekdayDefault
deriving DecidableEq, Repr

structure EffectiveDay where
  market : String
  tradeDate : Date
  isOpen : Bool
  dayStatus : DayStatus
  timezone : Zone
  sessionOpen : Option Nat
  sessionClose : Option Nat
  regularClose : Option Nat
  afterHoursClose : Option Nat
  holidayName : Option String
  description : Option String
  calendarSource : CalendarSource
  calendarRevision : Option Nat
  calendarRevisionId : Option Uuid
deriving DecidableEq, Repr

/-- What the market says of a date no revision covers. -/
structure Defaults where
  zone : Zone
  normalOpen : Option Nat
  normalClose : Option Nat
  weekendDays : List Nat
deriving DecidableEq, Repr

def State.defaults (s : State) (market : String) : Except String Defaults :=
  let configured := s.markets.find? market
  match fixedMarket market with
  | some fixed => .ok ⟨fixed.timezone, some fixed.normalOpen, some fixed.normalClose,
      (configured.map (·.weekendDays)).getD [5, 6]⟩
  | none => do
    let configured ← need configured "unsupported calendar market"
    return ⟨configured.timezone, configured.defaultSessionOpen, configured.defaultSessionClose,
      configured.weekendDays⟩

/-- A day and the revision it is a row of. -/
abbrev PublishedDay := RevisionDay × Revision

/-- The joined rows of the range; their order is the database's. -/
def State.publishedDays (s : State) (market : String) (start stop : Date) : List PublishedDay :=
  (s.revisions.rows.filter fun r => r.market == market && r.status == .published).flatMap fun r =>
    (r.days.rows.filter fun d => decide (start ≤ d.tradeDate ∧ d.tradeDate ≤ stop)).map fun d =>
      (d, r)

/-- The loop over the joined rows. -/
def collect (zone : Zone) : List PublishedDay → List PublishedDay →
    Except String (List PublishedDay)
  | published, [] => .ok published
  | published, (d, r) :: rows => do
    ensure (!published.any (·.1.tradeDate == d.tradeDate) && yearOf d.tradeDate == r.year &&
        r.timezone == zone && d.isOpen == (d.dayStatus == .opened))
      "invalid published calendar data"
    collect zone ((d, r) :: published) rows

/-- The result row of one date. -/
def effectiveDay (market : String) (defaults : Defaults) (published : List PublishedDay)
    (current : Date) : EffectiveDay :=
  let pair := published.find? (·.1.tradeDate == current)
  let isOpen := match pair with
    | some (d, _) => d.isOpen
    | none => !defaults.weekendDays.contains (weekday current)
  let opening := (bif isOpen then pair.bind (·.1.sessionOpen) else none) <|> defaults.normalOpen
  let closing := (bif isOpen then pair.bind (·.1.sessionClose) else none) <|> defaults.normalClose
  { market, tradeDate := current, isOpen
    dayStatus := match pair with
      | some (d, _) => d.dayStatus
      | none => bif isOpen then .opened else .closed
    timezone := defaults.zone
    sessionOpen := bif isOpen then opening else none
    sessionClose := bif isOpen then closing else none
    regularClose := closing
    afterHoursClose := if market == "TAIFEX" then some (timeOfDay 5 0) else none
    holidayName := pair.bind (·.1.holidayName)
    description := pair.bind (·.1.description)
    calendarSource := if pair.isSome then .published else .weekdayDefault
    calendarRevision := pair.map (·.2.revision)
    calendarRevisionId := pair.map (·.2.revisionId) }

/-- `effective_days`; every refusal is a `ValueError`. -/
def effectiveDays (cfg : Config) (s : State) (market : String) (start stop : Date) :
    Except String (List EffectiveDay) := do
  let market := cfg.upper market
  let defaults ← s.defaults market
  ensure (decide (start ≤ stop ∧ firstDay 1900 ≤ start ∧ stop < firstDay 2201))
    "invalid calendar range"
  let published ← collect defaults.zone [] (s.publishedDays market start stop)
  return (dateRange start stop).map (effectiveDay market defaults published)

/-- One row for each date of the range, in order. -/
theorem effectiveDays_dates {market : String} {start stop : Date} {days : List EffectiveDay}
    (h : effectiveDays cfg s market start stop = .ok days) :
    days.map (·.tradeDate) = dateRange start stop := by
  unfold effectiveDays at h
  obtain ⟨defaults, _, h⟩ := ok_bind h
  obtain ⟨_, _, h⟩ := ok_bind h
  obtain ⟨published, _, h⟩ := ok_bind h
  cases ok_pure h
  rw [List.map_map]
  exact List.map_id _

/-! ## Published rows agree -/

theorem mem_publishedDays {market : String} {start stop : Date} {row : PublishedDay} :
    row ∈ s.publishedDays market start stop ↔
      row.2 ∈ s.revisions ∧ row.2.market = market ∧ row.2.status = .published ∧
        row.1 ∈ row.2.days ∧ start ≤ row.1.tradeDate ∧ row.1.tradeDate ≤ stop := by
  obtain ⟨d, r⟩ := row
  simp only [State.publishedDays, List.mem_flatMap, List.mem_filter, List.mem_map,
    Bool.and_eq_true, beq_iff_eq, decide_eq_true_eq, Prod.mk.injEq]
  constructor
  · rintro ⟨r, ⟨hr, hm, hs⟩, d, ⟨hd, hlo, hhi⟩, rfl, rfl⟩
    exact ⟨hr, hm, hs, hd, hlo, hhi⟩
  · rintro ⟨hr, hm, hs, hd, hlo, hhi⟩
    exact ⟨r, ⟨hr, hm, hs⟩, d, ⟨hd, hlo, hhi⟩, rfl, rfl⟩

/-- A day of a complete revision lies in its year. -/
theorem Revision.Complete.inYear {r : Revision} (h : r.Complete) {d : RevisionDay}
    (hd : d ∈ r.days) : InYear r.year d.tradeDate :=
  (mem_of_perm_yearDays h.dates).mp (List.mem_map_of_mem hd)

/-- No date is published twice: one year has one published revision. -/
theorem Store.publishedDays_nodup (h : Store s) (market : String) (start stop : Date) :
    ((s.publishedDays market start stop).map (·.1.tradeDate)).Nodup := by
  unfold State.publishedDays
  rw [List.map_flatMap, List.nodup_flatMap]
  refine ⟨fun r hr => ?_, ?_⟩
  · rw [List.map_map]
    exact r.days.nodup.sublist (List.filter_sublist.map _)
  · have hnodup : (s.revisions.rows.filter fun r =>
        r.market == market && r.status == .published).Nodup :=
      s.revisions.nodup.of_map.filter _
    refine hnodup.pairwise_of_forall_ne fun r hr q hq hne => ?_
    simp only [List.mem_filter, Bool.and_eq_true, beq_iff_eq] at hr hq
    rw [Function.onFun_apply, List.disjoint_left]
    intro date hdr hdq
    simp only [List.map_map, List.mem_map, List.mem_filter] at hdr hdq
    obtain ⟨d, ⟨hd, _⟩, rfl⟩ := hdr
    obtain ⟨d', ⟨hd', _⟩, hdate⟩ := hdq
    have hdate : d'.tradeDate = d.tradeDate := hdate
    have hyear : r.year = q.year :=
      ((h.complete r hr.1).inYear hd).unique (hdate ▸ (h.complete q hq.1).inYear hd')
    exact hne (h.published r hr.1 q hq.1 (hr.2.1.trans hq.2.1.symm) hyear hr.2.2 hq.2.2)

/-- The loop passes rows that are right one by one and never repeat a date. -/
theorem collect_succeeds {zone : Zone} {rows : List PublishedDay}
    (hrow : ∀ row ∈ rows, InYear row.2.year row.1.tradeDate ∧ row.2.timezone = zone ∧
      row.1.isOpen = (row.1.dayStatus == .opened))
    (hnodup : (rows.map (·.1.tradeDate)).Nodup) {published : List PublishedDay}
    (hnew : ∀ row ∈ rows, ∀ p ∈ published, p.1.tradeDate ≠ row.1.tradeDate) :
    ∃ all, collect zone published rows = .ok all := by
  induction rows generalizing published with
  | nil => exact ⟨published, rfl⟩
  | cons row rows ih =>
    obtain ⟨d, r⟩ := row
    obtain ⟨hyear, hzone, hopen⟩ := hrow (d, r) List.mem_cons_self
    obtain ⟨hnot, hnodup⟩ := List.nodup_cons.mp hnodup
    have hfresh : published.any (·.1.tradeDate == d.tradeDate) = false := by
      rw [List.any_eq_false]
      intro p hp
      simpa using hnew (d, r) List.mem_cons_self p hp
    have hthis : yearOf d.tradeDate = r.year := (inYear_yearOf d.tradeDate).unique hyear
    have hstep : collect zone published ((d, r) :: rows) = collect zone ((d, r) :: published) rows := by
      rw [collect, hfresh, hthis, hzone, hopen]
      simp [ensure]
      rfl
    rw [hstep]
    refine ih (fun x hx => hrow x (List.mem_cons_of_mem _ hx)) hnodup fun x hx p hp => ?_
    rcases List.mem_cons.mp hp with rfl | hp
    · exact fun heq => hnot (List.mem_map.mpr ⟨x, hx, heq.symm⟩)
    · exact hnew x (List.mem_cons_of_mem _ hx) p hp

theorem Store.collect (h : Store s) {market : String} {zone : Zone} (start stop : Date)
    (hzone : ∀ r ∈ s.revisions, r.market = market → r.timezone = zone) :
    ∃ all, Calendar.collect zone [] (s.publishedDays market start stop) = .ok all := by
  refine collect_succeeds (fun row hrow => ?_) (h.publishedDays_nodup market start stop)
    fun _ _ p hp => absurd hp List.not_mem_nil
  obtain ⟨hr, hm, _, hd, _⟩ := mem_publishedDays.mp hrow
  have hcomplete := h.complete row.2 hr
  exact ⟨hcomplete.inYear hd, hzone row.2 hr hm, (hcomplete.days row.1 hd).1⟩

/-! ## The zone of a market -/

/-- Every row of the market has the zone. -/
structure Zoned (market : String) (zone : Zone) (s : State) : Prop where
  markets : ∀ m ∈ s.markets, m.market = market → m.timezone = zone
  revisions : ∀ r ∈ s.revisions, r.market = market → r.timezone = zone

/-- The operation keeps the configured zone of the market. -/
def Op.keepsZone (market : String) (zone : Zone) : Op → Prop
  | .upsertMarket row => row.market = market → row.timezone = zone
  | _ => True

/-- The zone a fixed market has. -/
def FixedZone (market : String) (zone : Zone) : Prop :=
  ∀ fixed, fixedMarket market = some fixed → fixed.timezone = zone

theorem zoned_init (market : String) (zone : Zone) : Zoned market zone State.init :=
  ⟨fun m hm => absurd hm (Table.not_mem_empty m), fun r hr => absurd hr (Table.not_mem_empty r)⟩

theorem AddsFixed.zoned {markets : Table Market.market} (h : AddsFixed s markets)
    {market : String} {zone : Zone} (hz : Zoned market zone s) (hfixed : FixedZone market zone) :
    ∀ m ∈ markets, m.market = market → m.timezone = zone := by
  intro m hm hname
  rcases h m hm with hm | ⟨fixed, hf, htz⟩
  · exact hz.markets m hm hname
  · rw [htz]
    exact hfixed fixed (hname ▸ hf)

theorem Zoned.supersede {market : String} {zone : Zone} (hz : Zoned market zone s)
    (other : String) (year : Int) : Zoned market zone (s.supersede other year) := by
  have hspec := supersede_spec s other year
  refine ⟨by rw [hspec.markets]; exact hz.markets, fun r hr hm => ?_⟩
  obtain ⟨q, hq, hsame, _⟩ := hspec.back r hr
  rw [hsame.timezone]
  exact hz.revisions q hq (hsame.market ▸ hm)

/-- One new revision. -/
theorem zoned_insert {market : String} {zone : Zone} {r : Revision}
    {revisions : Table Revision.revisionId} (hz : Zoned market zone s)
    (hr : s.revisions.insert? r = some revisions) (htz : r.market = market → r.timezone = zone) :
    ∀ q ∈ revisions, q.market = market → q.timezone = zone := by
  intro q hq hm
  rcases (Table.mem_insert? hr).mp hq with hq | rfl
  · exact hz.revisions q hq hm
  · exact htz hm

theorem upsertMarket_zoned {market : String} {zone : Zone} {row : Market}
    (hz : Zoned market zone s) (hrow : row.market = market → row.timezone = zone) :
    Zoned market zone (upsertMarket row s) := by
  unfold upsertMarket
  cases hins : s.markets.insert? row with
  | some markets =>
    refine ⟨fun m hm hname => ?_, hz.revisions⟩
    rcases (Table.mem_insert? hins).mp hm with hm | rfl
    · exact hz.markets m hm hname
    · exact hrow hname
  | none =>
    refine ⟨fun m hm hname => ?_, hz.revisions⟩
    have hm : m ∈ s.markets.modify row.market fun m => { row with market := m.market } := hm
    rcases Table.mem_modify.mp hm with ⟨hm, _⟩ | ⟨x, _, hx, rfl⟩
    · exact hz.markets m hm hname
    · exact hrow (hx.symm.trans hname)

theorem apply_zoned {market : String} {zone : Zone} (hfixed : FixedZone market zone) {op : Op}
    (hz : Zoned market zone s) (hop : op.keepsZone market zone) :
    Zoned market zone (apply cfg op s) := by
  refine apply_cases hz op (fun row he => ?_) (fun now batchId r t h => ?_)
    (fun now revisionId batchId expected t r h => ?_)
    (fun revisionId name date expected replacement t r h => ?_)
    (fun now name year expected publishedBy t h => ?_)
    (fun now revisionId name year target expected publishedBy t r h => ?_)
  · subst he
    exact upsertMarket_zoned hz hop
  · obtain ⟨markets, batches, b, hadds, _, rfl, _⟩ := preview_ok h
    exact ⟨hadds.zoned hz hfixed, hz.revisions⟩
  · obtain ⟨b, _, _, _, ⟨_, _, rfl⟩ | ⟨_, _, m, days, revisions, hm, _, rfl, hins, rfl⟩⟩ :=
      applyPreview_ok h
    · exact hz
    · obtain ⟨hm, hname⟩ := Table.find?_eq_some.mp hm
      exact ⟨hz.markets, zoned_insert hz hins fun hmarket => hz.markets m hm (hname.trans hmarket)⟩
  · obtain ⟨markets, m, _, revisions, hadds, hm, _, _, hmarket, _, _, _, _, _, htz, hins, rfl⟩ :=
      editDay_ok h
    have hmarkets := hadds.zoned hz hfixed
    obtain ⟨hm, hname⟩ := Table.find?_eq_some.mp hm
    refine ⟨hmarkets, zoned_insert hz hins fun hr => ?_⟩
    rw [htz]
    exact hmarkets m hm (hname.trans (hmarket.symm.trans hr))
  · obtain ⟨r, _, _, ⟨_, rfl⟩ | ⟨_, rfl⟩⟩ := publishRevision_ok h
    · exact hz
    · have hs := hz.supersede name year
      refine ⟨hs.markets, fun q hq hm => ?_⟩
      obtain ⟨p, hp, hsame, _⟩ := mem_modify_same (markPublished_same now publishedBy) hq
      rw [hsame.timezone]
      exact hs.revisions p hp (hsame.market ▸ hm)
  · obtain ⟨_, q, revisions, _, _, hq, hqm, _, _, _, rfl, hins, rfl⟩ := rollbackRevision_ok h
    have hs := hz.supersede name year
    exact ⟨hs.markets, zoned_insert hs hins fun hm => hz.revisions q hq hm⟩

/-- Runs that leave the zone of the market as it is configured. -/
def ZonedSteps (cfg : Config) (market : String) (zone : Zone) : State → State → Prop :=
  StepsIf (apply cfg) fun _ op => op.keepsZone market zone

theorem ZonedSteps.zoned {market : String} {zone : Zone} (hfixed : FixedZone market zone)
    (h : ZonedSteps cfg market zone s t) (hs : Zoned market zone s) : Zoned market zone t :=
  StepsIf.inv (I := Zoned market zone) (fun _ _ hz hop => @apply_zoned cfg _ _ _ hfixed _ hz hop) h hs

theorem ZonedSteps.steps {market : String} {zone : Zone} (h : ZonedSteps cfg market zone s t) :
    Steps cfg s t := StepsIf.weaken (fun _ _ _ => trivial) h

theorem Zoned.defaults {market : String} {zone : Zone} (hz : Zoned market zone s)
    (hfixed : FixedZone market zone) {defaults : Defaults} (h : s.defaults market = .ok defaults) :
    defaults.zone = zone := by
  unfold State.defaults at h
  simp only at h
  split at h
  · rename_i fixed hf
    cases h
    exact hfixed fixed hf
  · obtain ⟨m, hm, h⟩ := ok_bind h
    cases ok_pure h
    obtain ⟨hm, hname⟩ := Table.find?_eq_some.mp (need_ok.mp hm)
    exact hz.markets m hm hname

theorem defaults_error {market : String} {e : String} (h : s.defaults market = .error e) :
    e = "unsupported calendar market" := by
  unfold State.defaults at h
  simp only at h
  split at h
  · cases h
  · rcases error_bind h with h | ⟨_, _, h⟩
    · exact (need_error.mp h).2.symm
    · cases h

/-- A published calendar is never refused as invalid. -/
theorem effectiveDays_valid (hs : Store s) {market : String} {zone : Zone}
    (hfixed : FixedZone (cfg.upper market) zone) (hz : Zoned (cfg.upper market) zone s)
    (start stop : Date) :
    effectiveDays cfg s market start stop ≠ .error "invalid published calendar data" := by
  intro h
  unfold effectiveDays at h
  rcases error_bind h with h | ⟨defaults, hd, h⟩
  · simpa using defaults_error h
  rcases error_bind h with h | ⟨_, _, h⟩
  · simpa using (ensure_error.mp h).2
  rcases error_bind h with h | ⟨_, _, h⟩
  · obtain ⟨all, hall⟩ := hs.collect start stop hz.revisions
    rw [hz.defaults hfixed hd, hall] at h
    cases h
  · cases h

/-! ## The store over its runs -/

/-- In any state of any run: the revisions of a year are numbered from 1 without
a gap and at most one is published; each is its whole year with matching flags;
later runs keep every revision with its days; an edit differs on its date only, a
rollback repeats its target; outdated calls change nothing; an applied preview is
answered with its revision; and readers are not refused. -/
theorem calendar_store (h : Reachable cfg s) :
    (∀ market year, (∀ k, (∃ r ∈ s.revisions, r.market = market ∧ r.year = year ∧ r.revision = k) ↔
        1 ≤ k ∧ k ≤ s.currentRevision market year) ∧
      (∀ r ∈ s.revisions, ∀ q ∈ s.revisions, r.market = market → q.market = market →
        r.year = year → q.year = year →
          (r.revision = q.revision → r = q) ∧
          (r.status = .published → q.status = .published → r = q))) ∧
    (∀ r ∈ s.revisions, (r.days.rows.map (·.tradeDate)).Perm (yearDays r.year) ∧
      ∀ d ∈ r.days, d.isOpen = (d.dayStatus == .opened) ∧
        (d.dayStatus ≠ .opened → d.sessionOpen = none ∧ d.sessionClose = none)) ∧
    (∀ t, Steps cfg s t → ∀ r ∈ s.revisions, ∃ r' ∈ t.revisions, r'.revisionId = r.revisionId ∧
      r'.market = r.market ∧ r'.year = r.year ∧ r'.revision = r.revision ∧ r'.days = r.days) ∧
    (∀ revisionId market date expected replacement t r,
      editDay revisionId market date expected replacement s = .ok (t, r) →
        r ∈ t.revisions ∧ ∀ p, s.latestRevision market (yearOf date) = some p →
          r.revision = p.revision + 1 ∧
            ∀ d : RevisionDay, d.tradeDate ≠ date → (d ∈ r.days ↔ d ∈ p.days)) ∧
    (∀ now revisionId market year target expected publishedBy t r,
      rollbackRevision now revisionId market year target expected publishedBy s = .ok (t, r) →
        r ∈ t.revisions ∧ r.status = .published ∧ ∃ q ∈ s.revisions, q.market = market ∧
          q.year = year ∧ q.revision = target ∧
          r.days.rows.map (·.content) = q.days.rows.map (·.content)) ∧
    (∀ op : Op, op.outdated s → apply cfg op s = s) ∧
    (∀ now revisionId batchId expected t r,
      applyPreview now revisionId batchId expected s = .ok (t, r) → ∀ u, Steps cfg t u →
        ∀ now' revisionId', ∃ r', r.Same r' ∧
          applyPreview now' revisionId' batchId expected u = .ok (u, r')) ∧
    (∀ market zone, FixedZone (cfg.upper market) zone →
      ZonedSteps cfg (cfg.upper market) zone State.init s → ∀ start stop,
        effectiveDays cfg s market start stop ≠ .error "invalid published calendar data") := by
  have hs := h.store
  refine ⟨fun market year => ⟨hs.numbered market year, fun r hr q hq hrm hqm hry hqy => ?_⟩,
    fun r hr => ⟨(hs.complete r hr).dates, (hs.complete r hr).days⟩, fun t ht r hr => ?_,
    fun revisionId market date expected replacement t r hok => ?_,
    fun now revisionId market year target expected publishedBy t r hok => ?_,
    fun op hop => apply_outdated hop,
    fun now revisionId batchId expected t r hok u hu now' revisionId' =>
      applyPreview_again hs hok hu now' revisionId',
    fun market zone hfixed hz => effectiveDays_valid hs hfixed (hz.zoned hfixed (zoned_init _ _))⟩
  · exact ⟨hs.distinct r hr q hq (hrm.trans hqm.symm) (hry.trans hqy.symm),
      hs.published r hr q hq (hrm.trans hqm.symm) (hry.trans hqy.symm)⟩
  · obtain ⟨r', hr', hsame⟩ := ht.kept.revisions r hr
    exact ⟨r', hr', hsame.revisionId, hsame.market, hsame.year, hsame.revision, hsame.days⟩
  · refine ⟨?_, fun p hp => editDay_differs hs hok hp⟩
    obtain ⟨_, _, _, revisions, _, _, _, _, _, _, _, _, _, _, _, hins, rfl⟩ := editDay_ok hok
    exact (Table.mem_insert? hins).mpr (Or.inr rfl)
  · obtain ⟨_, q, revisions, _, _, hq, hqm, hqy, hqn, _, rfl, hins, rfl⟩ := rollbackRevision_ok hok
    exact ⟨(Table.mem_insert? hins).mpr (Or.inr rfl), rfl, q, hq, hqm, hqy, hqn,
      rolledBack_content q _ _ _ _⟩

/-- A year is published, edited on its second day, published again and rolled back. -/
def publishedRun : List Op :=
  [.preview 0 1 ⟨"TW", 1970, .exceptions, "json", [], none, none⟩, .applyPreview 1 2 1 0,
    .publish 2 "TW" 1970 1 none, .editDay 3 "TW" 1 1 ⟨1, .closed, some "holiday", none, none, none⟩,
    .publish 3 "TW" 1970 2 none, .rollback 4 4 "TW" 1970 1 2 none]

theorem calendar_store_publishedRun :
    (∃ r ∈ (runAll (apply ⟨fun o _ => o, id⟩) publishedRun State.init).revisions,
        r.market = "TW" ∧ r.year = 1970 ∧ r.revision = 3) ↔
      1 ≤ 3 ∧ 3 ≤ (runAll (apply ⟨fun o _ => o, id⟩) publishedRun State.init).currentRevision
        "TW" 1970 := by
  have hreach : Reachable ⟨fun o _ => o, id⟩ (runAll (apply ⟨fun o _ => o, id⟩) publishedRun
      State.init) :=
    runAll_steps publishedRun State.init (admitted_of_forall (fun _ _ => trivial) publishedRun _)
  exact ((calendar_store hreach).1 "TW" 1970).1 3

end FinDB.Calendar
