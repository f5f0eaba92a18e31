import FinDB.Calendar.Effective
import FinDB.Lib.Descending

/-! # The data date that is due

A feed owes the latest open session whose close plus grace has passed. The scan goes back
over at most 32 rows and fetches the year before when it runs out of them. Cutoffs are
compared on the wall clock of the market's zone. -/
namespace FinDB.Delivery
open FinDB.Lib FinDB.Calendar

/-! ## Published years -/

/-- `complete_published_revision_ids`, of one revision. -/
def completePublished (r : Revision) : Bool :=
  r.status == .published && r.actualDays == r.expectedDays && r.expectedDays == daysIn r.year &&
    r.days.rows.length == r.expectedDays

/-- `revision_days`. -/
def revisionDays (r : Revision) : List RevisionDay :=
  r.days.rows.insertionSort fun a b => a.tradeDate ≤ b.tradeDate

/-- `published_year`, of which only the days are read. -/
def publishedYear (s : State) (market : String) (year : Int) : Option (List RevisionDay) :=
  match s.revisions.rows.find? fun r => r.of market year && completePublished r with
  | none => none
  | some revision =>
    if revision.actualDays ≠ revision.expectedDays then none
    else if (s.markets.find? market).isNone then none
    else
      let days := revisionDays revision
      if days.length ≠ daysIn year then none else some days

/-- A year has days. -/
theorem length_publishedYear {s : State} {market : String} {year : Int} {days : List RevisionDay}
    (h : publishedYear s market year = some days) : days.length = daysIn year := by
  unfold publishedYear at h
  split at h
  · cases h
  · split at h
    · cases h
    · split at h
      · cases h
      · simp only at h
        split at h
        · cases h
        · rename_i hlen
          cases h
          exact not_not.mp hlen

/-! ## The policy -/

structure LatestDatePolicy where
  calendarMarket : String
  timezone : Zone
  marketCloseTime : Nat
  availabilityGraceMinutes : Nat
  grace : availabilityGraceMinutes ≤ 24 * 60

/-- A wall-clock reading, in microseconds. -/
def wall (date : Date) (time : Nat) : Int := date * day + time

def wallOf (t : LocalTime) : Int := wall t.date t.time

section
variable (policy : LatestDatePolicy)

/-- Close plus grace. -/
def cutoff (row : RevisionDay) : Int :=
  wall row.tradeDate (row.sessionClose.getD policy.marketCloseTime) +
    policy.availabilityGraceMinutes * minute

/-- An open session whose cutoff has passed. -/
def due (localNow : LocalTime) (row : RevisionDay) : Bool :=
  row.isOpen && decide (cutoff policy row ≤ wallOf localNow)

/-- `for row in rows[:32]`. -/
def scan (localNow : LocalTime) (rows : List RevisionDay) : Option Date :=
  ((rows.take 32).find? (due policy localNow)).map (·.tradeDate)

/-- The loop over the years; each turn adds a year of rows. -/
def extendRows (s : State) (localNow : LocalTime) (rows : List RevisionDay) (year : Int) :
    Option Date × Option String :=
  match scan policy localNow rows with
  | some date => (some date, none)
  | none =>
    if 32 ≤ rows.length then (none, some "no_closed_open_session_in_calendar_window")
    else
      match hprevious : publishedYear s policy.calendarMarket year with
      | none => (none, some "calendar_does_not_cover_evaluation_date")
      | some previous =>
        extendRows s localNow (sortDescending (·.tradeDate) (rows ++ previous)) (year - 1)
termination_by 32 - rows.length
decreasing_by
  have hlen := length_publishedYear hprevious
  have hdays : 365 ≤ daysIn year := by
    unfold daysIn
    split <;> decide
  rw [length_sortDescending, List.length_append]
  omega

/-- Today's session is not due yet: at its cutoff, or at the operational deadline. -/
def currentPending (clock : Clock) (now : Instant) (deadline : Option Nat)
    (operationalTimezone : Option Zone) (lag : Nat) (row : RevisionDay) : Bool :=
  match deadline with
  | none => decide (wallOf (clock.localTime policy.timezone now) < cutoff policy row)
  | some deadline =>
    let zone := (operationalTimezone.filter (· ≠ "")).getD policy.timezone
    decide (wallOf (clock.localTime zone now) < wall (row.tradeDate + lag) deadline)

/-- `resolve_expected_data_date`. -/
def resolveExpectedDataDate (clock : Clock) (s : State) (now : Instant) (strict : Bool)
    (deadline : Option Nat) (operationalTimezone : Option Zone) (lag : Nat) :
    Except String (Option Date × Option String) := do
  ensure (decide (lag ≤ 366)) "target_date_lag_days must be between 0 and 366"
  let localNow := clock.localTime policy.timezone now
  let today := localNow.date
  let uncovered := (none, some "calendar_does_not_cover_evaluation_date")
  match publishedYear s policy.calendarMarket (yearOf today) with
  | none => return uncovered
  | some current =>
    match sortDescending (·.tradeDate) (current.filter fun row => decide (row.tradeDate ≤ today)) with
    | [] => return uncovered
    | first :: rest =>
      if first.tradeDate ≠ today then return uncovered
      else if strict && first.isOpen &&
          currentPending policy clock now deadline operationalTimezone lag first then
        return extendRows policy s localNow rest (yearOf today - 1)
      else return extendRows policy s localNow (first :: rest) (yearOf today - 1)

end

/-! ## What is published -/

section
variable {s : State} {market : String} {year : Int}

/-- The days of a published year are the dates of the year. -/
theorem publishedYear_perm (hs : Store s) {days : List RevisionDay}
    (h : publishedYear s market year = some days) :
    (days.map (·.tradeDate)).Perm (yearDays year) := by
  unfold publishedYear at h
  split at h
  · cases h
  · rename_i r hr
    have hrow := List.find?_some hr
    simp only [Bool.and_eq_true, Revision.of_iff] at hrow
    have hdates := (hs.complete r (List.mem_of_find?_eq_some hr)).dates
    rw [hrow.1.2] at hdates
    split at h
    · cases h
    · split at h
      · cases h
      · simp only at h
        split at h
        · cases h
        · cases h
          exact ((List.perm_insertionSort _ _).map _).trans hdates

theorem mem_publishedYear (hs : Store s) {days : List RevisionDay} {row : RevisionDay}
    (h : publishedYear s market year = some days) (hrow : row ∈ days) : InYear year row.tradeDate :=
  (mem_of_perm_yearDays (publishedYear_perm hs h)).mp (List.mem_map_of_mem hrow)

/-- A row of a published year. -/
def Published (s : State) (market : String) (row : RevisionDay) : Prop :=
  ∃ year days, publishedYear s market year = some days ∧ row ∈ days

/-- A row up to today, with every year between published. -/
def Connected (s : State) (market : String) (today : Date) (row : RevisionDay) : Prop :=
  (∃ year days, publishedYear s market year = some days ∧ row ∈ days ∧
    ∀ z, year ≤ z → z ≤ yearOf today → (publishedYear s market z).isSome = true) ∧
  row.tradeDate ≤ today

end

/-! ## The loop -/

/-- The rows in hand when the years after `year` have been fetched. -/
structure Fetched (s : State) (market : String) (today : Date) (rows : List RevisionDay)
    (year : Int) : Prop where
  descending : Descending (·.tradeDate) rows
  published : ∀ z, year < z → z ≤ yearOf today → (publishedYear s market z).isSome = true
  mem : ∀ row, row ∈ rows ↔ row.tradeDate ≤ today ∧ ∃ z days, year < z ∧ z ≤ yearOf today ∧
    publishedYear s market z = some days ∧ row ∈ days

section
variable {s : State} {market : String} {today : Date} {rows : List RevisionDay} {year : Int}

/-- One more year. -/
theorem Fetched.extend (hs : Store s) (h : Fetched s market today rows year)
    (hyear : year < yearOf today) {previous : List RevisionDay}
    (hp : publishedYear s market year = some previous) :
    Fetched s market today (sortDescending (·.tradeDate) (rows ++ previous)) (year - 1) := by
  have hbefore : ∀ row ∈ previous, ∀ q ∈ rows, row.tradeDate < q.tradeDate := by
    intro row hrow q hq
    obtain ⟨_, z, days, hz, _, hd, hqd⟩ := (h.mem q).mp hq
    have hlast := (mem_publishedYear hs hp hrow).2
    have hfirst := (mem_publishedYear hs hd hqd).1
    have hmono := firstDay_mono (show year + 1 ≤ z by omega)
    exact lt_of_lt_of_le hlast (hmono.trans hfirst)
  have hpast : ∀ row ∈ previous, row.tradeDate ≤ today := by
    intro row hrow
    have hlast := (mem_publishedYear hs hp hrow).2
    have hfirst := (inYear_yearOf today).1
    have hmono := firstDay_mono (show year + 1 ≤ yearOf today by omega)
    exact (lt_of_lt_of_le hlast (hmono.trans hfirst)).le
  refine ⟨descending_sortDescending ?_, fun z hz hle => ?_, fun row => ?_⟩
  · rw [List.map_append, List.nodup_append']
    refine ⟨?_, (publishedYear_perm hs hp).nodup_iff.mpr (nodup_yearDays year), ?_⟩
    · exact List.pairwise_map.mpr (h.descending.imp fun hlt => (ne_of_lt hlt).symm)
    · intro date hdate hdate'
      obtain ⟨q, hq, rfl⟩ := List.mem_map.mp hdate
      obtain ⟨row, hrow, heq⟩ := List.mem_map.mp hdate'
      exact absurd heq (ne_of_lt (hbefore row hrow q hq))
  · rcases lt_or_eq_of_le (show year ≤ z by omega) with hlt | rfl
    · exact h.published z hlt hle
    · rw [hp]
      rfl
  · rw [mem_sortDescending, List.mem_append, h.mem row]
    constructor
    · rintro (⟨hle, z, days, hz, hzt, hd, hrow⟩ | hrow)
      · exact ⟨hle, z, days, by omega, hzt, hd, hrow⟩
      · exact ⟨hpast row hrow, year, previous, by omega, hyear.le, hp, hrow⟩
    · rintro ⟨hle, z, days, hz, hzt, hd, hrow⟩
      rcases lt_or_eq_of_le (show year ≤ z by omega) with hlt | rfl
      · exact Or.inl ⟨hle, z, days, hlt, hzt, hd, hrow⟩
      · rw [hp] at hd
        cases hd
        exact Or.inr hrow

/-! ## The answer -/

/-- The latest open session that is due. -/
structure LatestDue (policy : LatestDatePolicy) (s : State) (localNow : LocalTime) (date : Date) :
    Prop where
  session : ∃ row, Published s policy.calendarMarket row ∧ row.tradeDate = date ∧
    row.isOpen = true ∧ cutoff policy row ≤ wallOf localNow
  past : date ≤ localNow.date
  latest : ∀ row, Published s policy.calendarMarket row → row.isOpen = true →
    date < row.tradeDate → row.tradeDate ≤ localNow.date → ¬ cutoff policy row ≤ wallOf localNow

/-- No session among the last 32 days is due. The years are whole, so these are the days of
the last 32 dates, as far back as published years follow each other. -/
def NoneDue (policy : LatestDatePolicy) (s : State) (localNow : LocalTime) : Prop :=
  ∀ row, Connected s policy.calendarMarket localNow.date row → localNow.date - 32 < row.tradeDate →
    ¬ (row.isOpen = true ∧ cutoff policy row ≤ wallOf localNow)

variable {policy : LatestDatePolicy} {localNow : LocalTime}

theorem due_eq_false {row : RevisionDay} :
    due policy localNow row = false ↔ ¬ (row.isOpen = true ∧ cutoff policy row ≤ wallOf localNow) := by
  unfold due
  rw [← Bool.not_eq_true, Bool.and_eq_true, decide_eq_true_iff]

/-- A date that is found is the latest: the rows above it are all in hand. -/
theorem Fetched.latestDue (hs : Store s)
    (h : Fetched s policy.calendarMarket localNow.date rows year) {date : Date}
    (hfound : scan policy localNow rows = some date) : LatestDue policy s localNow date := by
  unfold scan at hfound
  obtain ⟨row, hfind, rfl⟩ := Option.map_eq_some_iff.mp hfound
  obtain ⟨hrow, hdue, habove⟩ := h.descending.find?_take hfind
  obtain ⟨hpast, z, days, hz, hzt, hd, hmem⟩ := (h.mem row).mp hrow
  unfold due at hdue
  rw [Bool.and_eq_true, decide_eq_true_iff] at hdue
  refine ⟨⟨row, ⟨z, days, hd, hmem⟩, rfl, hdue⟩, hpast, ?_⟩
  rintro q ⟨y, days', hd', hq⟩ hopen hlt hle hcutoff
  have hin : q ∈ rows := by
    refine (h.mem q).mpr ⟨hle, y, days', ?_, ?_, hd', hq⟩
    · -- a later day is no earlier year
      by_contra hyear
      have hlast := (mem_publishedYear hs hd' hq).2
      have hfirst := (mem_publishedYear hs hd hmem).1
      have hmono := firstDay_mono (show y + 1 ≤ z by omega)
      exact absurd hlt (not_lt.mpr (hlast.le.trans (hmono.trans hfirst)))
    · by_contra hyear
      have hfirst := (mem_publishedYear hs hd' hq).1
      have hlast := (inYear_yearOf localNow.date).2
      have hmono := firstDay_mono (show yearOf localNow.date + 1 ≤ y by omega)
      exact absurd hle (not_le.mpr (lt_of_lt_of_le hlast (hmono.trans hfirst)))
  exact due_eq_false.mp (habove q hin hlt) ⟨hopen, hcutoff⟩

/-- Nothing found among 32 rows: none of the last 32 days is due. -/
theorem Fetched.noneDue (hs : Store s)
    (h : Fetched s policy.calendarMarket localNow.date rows year)
    (hyear' : year < yearOf localNow.date)
    (hnone : scan policy localNow rows = none)
    (hend : 32 ≤ rows.length ∨ publishedYear s policy.calendarMarket year = none) :
    NoneDue policy s localNow := by
  rintro row ⟨⟨y, days, hd, hrow, hyears⟩, hpast⟩ hkey hdue
  unfold scan at hnone
  have hall := List.find?_eq_none.mp (Option.map_eq_none_iff.mp hnone)
  have htop : ∀ q ∈ rows, q.tradeDate ≤ localNow.date := fun q hq => ((h.mem q).mp hq).1
  have hyt : y ≤ yearOf localNow.date := by
    by_contra hyear
    have hfirst := (mem_publishedYear hs hd hrow).1
    have hlast := (inYear_yearOf localNow.date).2
    have hmono := firstDay_mono (show yearOf localNow.date + 1 ≤ y by omega)
    exact absurd hpast (not_le.mpr (lt_of_lt_of_le hlast (hmono.trans hfirst)))
  have hin : row ∈ rows := by
    by_contra hout
    have hyear : y ≤ year := by
      by_contra hgt
      exact hout ((h.mem row).mpr ⟨hpast, y, days, by omega, hyt, hd, hrow⟩)
    rcases hend with hlen | hmissing
    · -- the rows in hand lie between
      have hbelow : ∀ q ∈ rows, row.tradeDate < q.tradeDate := by
        intro q hq
        obtain ⟨_, z, days', hz, _, hd', hq'⟩ := (h.mem q).mp hq
        have hlast := (mem_publishedYear hs hd hrow).2
        have hfirst := (mem_publishedYear hs hd' hq').1
        have hmono := firstDay_mono (show y + 1 ≤ z by omega)
        exact lt_of_lt_of_le hlast (hmono.trans hfirst)
      have hfar := h.descending.below htop hpast hbelow
      have hcount : (32 : Int) ≤ rows.length := by exact_mod_cast hlen
      exact absurd hkey (not_lt.mpr (hfar.trans (Int.sub_le_sub_left hcount _)))
    · have hsome := hyears year hyear hyear'.le
      rw [hmissing] at hsome
      cases hsome
  have htake : row ∈ rows.take 32 := h.descending.mem_take htop hin hkey
  have hfalse := hall row htake
  rw [Bool.not_eq_true] at hfalse
  exact due_eq_false.mp hfalse hdue

/-- What an answer says. -/
def Answers (policy : LatestDatePolicy) (s : State) (localNow : LocalTime) :
    Option Date × Option String → Prop
  | (some date, _) => LatestDue policy s localNow date
  | (none, _) => publishedYear s policy.calendarMarket (yearOf localNow.date) = none ∨
    (∃ days, publishedYear s policy.calendarMarket (yearOf localNow.date) = some days ∧
      ∀ row ∈ days, row.tradeDate ≠ localNow.date) ∨
    NoneDue policy s localNow

theorem extendRows_answers (hs : Store s) (rows : List RevisionDay) (year : Int)
    (h : Fetched s policy.calendarMarket localNow.date rows year)
    (hyear : year < yearOf localNow.date) :
    Answers policy s localNow (extendRows policy s localNow rows year) := by
  induction rows, year using extendRows.induct policy s localNow with
  | case1 rows year date hfound =>
    rw [extendRows, hfound]
    exact h.latestDue hs hfound
  | case2 rows year hnone hlen =>
    rw [extendRows, hnone]
    simp only [if_pos hlen]
    exact Or.inr (Or.inr (h.noneDue hs hyear hnone (Or.inl hlen)))
  | case3 rows year hnone hlen hmissing =>
    rw [extendRows, hnone]
    simp only [if_neg hlen]
    split
    · exact Or.inr (Or.inr (h.noneDue hs hyear hnone (Or.inr hmissing)))
    · rename_i previous hprevious
      rw [hmissing] at hprevious
      cases hprevious
  | case4 rows year hnone hlen previous hprevious ih =>
    rw [extendRows, hnone]
    simp only [if_neg hlen]
    split
    · rename_i hmissing
      rw [hprevious] at hmissing
      cases hmissing
    · rename_i previous' hprevious'
      rw [hprevious] at hprevious'
      cases hprevious'
      exact ih (h.extend hs hyear hprevious) (by omega)

/-- The rows of this year up to today. -/
theorem fetched_current (hs : Store s) {current : List RevisionDay} {today : Date}
    (h : publishedYear s market (yearOf today) = some current) :
    Fetched s market today (sortDescending (·.tradeDate)
      (current.filter fun row => decide (row.tradeDate ≤ today))) (yearOf today - 1) := by
  refine ⟨descending_sortDescending ?_, fun z hz hle => ?_, fun row => ?_⟩
  · have hnodup := (publishedYear_perm hs h).nodup_iff.mpr (nodup_yearDays _)
    exact (List.filter_sublist.map _).nodup hnodup
  · obtain rfl : z = yearOf today := by omega
    rw [h]
    rfl
  · rw [mem_sortDescending, List.mem_filter, decide_eq_true_iff]
    constructor
    · rintro ⟨hrow, hle⟩
      exact ⟨hle, yearOf today, current, by omega, le_rfl, h, hrow⟩
    · rintro ⟨hle, z, days, hz, hzt, hd, hrow⟩
      obtain rfl : z = yearOf today := by omega
      rw [h] at hd
      cases hd
      exact ⟨hrow, hle⟩

/-- **The expected data date is the latest due open session.** Outside strict mode the
resolution of any lag in range answers; a date it answers with is the latest open session
up to today that is due, and without a date today is not covered or no session of the last
32 days is due. -/
theorem resolve_answers (cfg : Config) (h : Reachable cfg s) (policy : LatestDatePolicy)
    (clock : Clock) (now : Instant) (deadline : Option Nat) (operationalTimezone : Option Zone)
    (lag : Nat) (hlag : lag ≤ 366) : ∃ answer,
    resolveExpectedDataDate policy clock s now false deadline operationalTimezone lag = .ok answer ∧
      Answers policy s (clock.localTime policy.timezone now) answer := by
  have hs := h.store
  generalize hnow : clock.localTime policy.timezone now = localNow
  unfold resolveExpectedDataDate
  simp only [hlag, decide_true, ensure, if_true, hnow]
  cases hcurrent : publishedYear s policy.calendarMarket (yearOf localNow.date) with
  | none => exact ⟨_, rfl, Or.inl hcurrent⟩
  | some current =>
    have hfetched := fetched_current hs hcurrent
    have hlacks : (∀ row ∈ current, row.tradeDate ≠ localNow.date) →
        Answers policy s localNow (none, some "calendar_does_not_cover_evaluation_date") :=
      fun hnone => Or.inr (Or.inl ⟨current, hcurrent, hnone⟩)
    cases hrows : sortDescending (fun row : RevisionDay => row.tradeDate)
        (current.filter fun row => decide (row.tradeDate ≤ localNow.date)) with
    | nil =>
      simp only [hrows]
      refine ⟨_, rfl, hlacks fun row hrow heq => ?_⟩
      have hin : row ∈ sortDescending (fun row : RevisionDay => row.tradeDate)
          (current.filter fun row => decide (row.tradeDate ≤ localNow.date)) :=
        mem_sortDescending.mpr (List.mem_filter.mpr ⟨hrow, decide_eq_true (le_of_eq heq)⟩)
      rw [hrows] at hin
      cases hin
    | cons first rest =>
      rw [hrows] at hfetched
      by_cases hfirst : first.tradeDate = localNow.date
      · simp only [hrows, hfirst, ne_eq, not_true_eq_false, if_false, Bool.false_and,
          Bool.false_eq_true]
        exact ⟨_, rfl, extendRows_answers hs (first :: rest) _ hfetched (by omega)⟩
      · simp only [hrows, ne_eq, hfirst, not_false_eq_true, if_true]
        refine ⟨_, rfl, hlacks fun row hrow heq => hfirst ?_⟩
        have hin : row ∈ first :: rest := by
          rw [← hrows]
          exact mem_sortDescending.mpr (List.mem_filter.mpr ⟨hrow, decide_eq_true (le_of_eq heq)⟩)
        rcases List.mem_cons.mp hin with rfl | hin
        · exact heq
        · -- today's row is at the front of a falling list
          have hbelow := List.rel_of_pairwise_cons hfetched.descending hin
          have hpast := ((hfetched.mem first).mp List.mem_cons_self).1
          exact absurd hpast (not_le.mpr (heq ▸ hbelow))

end

/-- A zone eight hours ahead, and the Taiwan close at 13:30 with two hours of grace. -/
def taipeiClock : Clock :=
  ⟨fun _ now => ⟨((now + 8 * 60 * minute) / day : Nat), (now + 8 * 60 * minute) % day⟩,
    fun _ date time => (date * day + time - 8 * 60 * minute : Int).toNat⟩

def taipeiPolicy : LatestDatePolicy := ⟨"TW", "Asia/Taipei", timeOfDay 13 30, 120, by decide⟩

/-- On the third day of the year that was published, edited, published again and rolled back. -/
theorem resolve_answers_publishedRun : ∃ answer,
    resolveExpectedDataDate taipeiPolicy taipeiClock
        (runAll (apply ⟨fun o _ => o, id⟩) publishedRun State.init) (2 * day) false none none 0 =
      .ok answer ∧
      Answers taipeiPolicy (runAll (apply ⟨fun o _ => o, id⟩) publishedRun State.init)
        (taipeiClock.localTime taipeiPolicy.timezone (2 * day)) answer := by
  have hreach : Reachable ⟨fun o _ => o, id⟩ (runAll (apply ⟨fun o _ => o, id⟩) publishedRun
      State.init) :=
    runAll_steps publishedRun State.init (admitted_of_forall (fun _ _ => trivial) publishedRun _)
  exact resolve_answers _ hreach taipeiPolicy taipeiClock (2 * day) none none 0 (by decide)

end FinDB.Delivery
