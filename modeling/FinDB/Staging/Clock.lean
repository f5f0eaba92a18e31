import FinDB.Scheduler.Clock

/-! # The times of the staging database

A time is stored as its `isoformat` in UTC, with the offset `+00:00` kept, and SQLite compares
the texts. -/
namespace FinDB.Staging
open FinDB.Lib
open FinDB.Scheduler (Datetime)

inductive Err where
  /-- `ShioajiStagingStateError`. -/
  | state (message : String)
  /-- `sqlite3.IntegrityError`. -/
  | integrity
  /-- `OverflowError`: outside the years `1 .. 9999`. -/
  | overflow
deriving DecidableEq, Repr

/-- `_utc`: the time whose text is stored. -/
def utc (value : Datetime) : Except Err UtcTime := do
  ensure value.tzinfo.isSome (.state "state clock must be timezone-aware")
  need (UtcTime.ofMicros value.instant) .overflow

/-- `value + timedelta(seconds=seconds)` moves the wall time. -/
def shift (value : Datetime) (seconds : Int) : Except Err Datetime := do
  let wall ← need (UtcTime.ofMicros (value.wall.toMicros + seconds * 1000000)) .overflow
  return { value with wall, fold := false }

/-- `a < b` in SQL. -/
def before (a b : UtcTime) : Bool := decide (a.isoformat < b.isoformat)

/-! ## Texts -/

/-- A whole second ends with `+`, which is before `.`. -/
theorem fraction_offset_lt_iff {m n : Nat} (hm : m < 1000000) (hn : n < 1000000) :
    UtcTime.fraction m ++ ['+', '0', '0', ':', '0', '0'] <
      UtcTime.fraction n ++ ['+', '0', '0', ':', '0', '0'] ↔ m < n := by
  unfold UtcTime.fraction
  by_cases h0 : m = 0
  · by_cases hn0 : n = 0
    · simp only [h0, hn0, if_true, lt_irrefl]
    · simp only [h0, hn0, if_true, if_false, List.nil_append, List.cons_append,
        List.cons_lt_cons_iff]
      exact iff_of_true (Or.inl (by decide)) (Nat.pos_of_ne_zero hn0)
  · by_cases hn0 : n = 0
    · simp only [h0, hn0, if_true, if_false, List.nil_append, List.cons_append,
        List.cons_lt_cons_iff]
      refine iff_of_false ?_ (Nat.not_lt_zero m)
      exact fun h => h.elim (by decide) fun h => absurd h.1 (by decide)
    · rw [if_neg h0, if_neg hn0, List.cons_append, List.cons_append, sep_lt_iff, field_lt_iff hm hn]
      simp

/-- The texts compare as the times, always. -/
theorem before_iff {a b : UtcTime} : before a b = true ↔ a.toMicros < b.toMicros := by
  have ha := a.valid.2
  have hb := b.valid.2
  rw [before, decide_eq_true_eq, UtcTime.isoformat, UtcTime.isoformat, String.lt_iff_toList_lt,
    String.toList_ofList, String.toList_ofList, a.isoChars_eq, b.isoChars_eq,
    UtcTime.stem_lt_iff, fraction_offset_lt_iff ha hb]
  unfold UtcTime.toMicros
  omega

theorem before_eq_false {a b : UtcTime} : before a b = false ↔ b.toMicros ≤ a.toMicros := by
  rw [← Bool.not_eq_true, before_iff, not_lt]

theorem utc_ok {value : Datetime} {t : UtcTime} (h : utc value = .ok t) :
    t.toMicros = value.instant := by
  obtain ⟨_, _, h⟩ := ok_bind h
  exact UtcTime.ofMicros_eq_some.mp (need_ok.mp h)

/-! ## A zone of one offset -/

/-- The zone of the clock always has the same offset. -/
def FixedZone (value : Datetime) : Prop :=
  ∃ tz offset, value.tzinfo = some tz ∧ ∀ wall fold, tz.utcoffset wall fold = some offset

/-- There a difference of wall times is one of instants. -/
theorem shift_instant {value moved : Datetime} {seconds : Int} (hfixed : FixedZone value)
    (h : shift value seconds = .ok moved) : moved.instant = value.instant + seconds * 1000000 := by
  obtain ⟨tz, offset, htz, hoffset⟩ := hfixed
  obtain ⟨wall, hwall, h⟩ := ok_bind h
  cases h
  have hmicros := UtcTime.ofMicros_eq_some.mp (need_ok.mp hwall)
  simp only [Datetime.instant, Datetime.utcoffset, htz, Option.bind_some, hoffset,
    Option.getD_some, hmicros]
  omega

end FinDB.Staging
