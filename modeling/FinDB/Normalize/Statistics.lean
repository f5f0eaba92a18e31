import FinDB.Normalize.Accounting

/-! # Read statistics

`instrument_stats` is never recomputed: a daily write that was applied moves the columns
of its instrument, a minute batch merges what it applied. The columns mirror the rows all
the same, since a write that was not applied changes no row and one that was is the row. -/
namespace FinDB.Normalize
open FinDB.Lib

/-! ## Columns -/

section
variable {κ ν : Type} [LinearOrder κ] {R D : κ → ν → Prop}

/-- First key, latest key and value of a relation; null as long as it is empty. -/
def Reads (R : κ → ν → Prop) (first latest : Option κ) (value : ν) : Prop :=
  (first = none ∧ latest = none ∧ ∀ k v, ¬ R k v) ∨
  ∃ s : Span κ ν, first = some s.first ∧ latest = some s.latest ∧ value = s.value ∧ Spans R s

/-- What a conditional upsert makes of the columns. -/
theorem Reads.merge {first latest : Option κ} {value : ν} {t : Span κ ν}
    (h : Reads R first latest value) (hD : Spans D t) :
    Reads (override D R) (least first (some t.first))
      (if moves latest (some t.latest) then some t.latest else latest)
      (if moves latest (some t.latest) then t.value else value) := by
  rcases h with ⟨rfl, rfl, hempty⟩ | ⟨s, rfl, rfl, rfl, hs⟩
  · refine Or.inr ⟨t, rfl, rfl, rfl, ?_⟩
    rwa [override_empty hempty]
  · refine Or.inr ⟨s.merge t, rfl, ?_, ?_, hs.merge hD⟩
    · by_cases hle : s.latest ≤ t.latest <;> simp [moves, Span.merge, hle]
    · by_cases hle : s.latest ≤ t.latest <;> simp [moves, Span.merge, hle]

/-- A row that is not there reads an empty relation. -/
theorem reads_inserted {t : Span κ ν} (h : ∀ k v, ¬ R k v) (hD : Spans D t) :
    Reads (override D R) (some t.first) (some t.latest) t.value := by
  rw [override_empty h]
  exact Or.inr ⟨t, rfl, rfl, rfl, hD⟩

end

/-! ## Rows -/

/-- The closes of an instrument by trade date. -/
def eodCloses (t : Canonical.Tables) (i : Uuid) : Date → Option Canonical.Decimal → Prop :=
  fun date close => ∃ row, t.eod ⟨i, date⟩ = some row ∧ row.written.values.close = close

/-- The closes of an instrument by bar start. -/
def minuteCloses (t : Canonical.Tables) (i : Uuid) : Instant → Option Canonical.Decimal → Prop :=
  fun start close => ∃ date row, t.minute ⟨i, date, start⟩ = some row ∧
    row.written.values.close = close

/-- Every bar stands under the local date of its start. -/
def MinuteDated (lang : Language) (t : Canonical.Tables) : Prop :=
  ∀ slot row, t.minute slot = some row → ∃ start : UtcTime,
    slot.barStartTime = instantOf start ∧ slot.tradeDate = (lang.taipeiDate start).toordinal

/-- The columns of an instrument read its rows. -/
def StatsRead (t : Canonical.Tables) (i : Uuid) : Option InstrumentStats → Prop
  | none => (∀ k v, ¬ eodCloses t i k v) ∧ ∀ k v, ¬ minuteCloses t i k v
  | some s => Reads (eodCloses t i) s.eodFirstDate s.eodLatestDate s.eodLatestClose ∧
    Reads (minuteCloses t i) s.minuteFirstBarAt s.minuteLatestBarAt s.minuteLatestClose

/-- Statistics and rows agree. -/
structure Mirrored {ρ : Type} (lang : Language) (db : Db ρ) : Prop where
  dated : MinuteDated lang db.tables
  stats : ∀ i, StatsRead db.tables i (db.stats i)

/-! ## Guarded upserts -/

section
variable {ι κ : Type} {stored : Option (Canonical.Row ι κ)} {excluded : Canonical.Row ι κ}

/-- A write that is not applied leaves the row that is there. -/
theorem upsert_kept (h : (Canonical.upsert stored excluded).2 = false) :
    stored = some (Canonical.upsert stored excluded).1 := by
  unfold Canonical.upsert at h ⊢
  cases stored with
  | none => cases h
  | some row =>
    simp only at h ⊢
    split at h
    · cases h
    · rename_i hloses
      rw [if_neg hloses]

/-- A write that is applied is the row. -/
theorem upsert_written (h : (Canonical.upsert stored excluded).2 = true) :
    (Canonical.upsert stored excluded).1.written = excluded.written := by
  unfold Canonical.upsert at h ⊢
  cases stored with
  | none => rfl
  | some row =>
    simp only at h ⊢
    split at h
    · rename_i hwins
      rw [if_pos hwins]
    · cases h

end

section
variable {t : Canonical.Tables} {ctx : Canonical.WriteContext}

theorem upsertEod_kept {slot : Canonical.EodSlot} {values : Canonical.EodValues}
    (h : (Canonical.upsertEod ctx slot values t).2 = false) :
    (Canonical.upsertEod ctx slot values t).1 = t := by
  have hrow := upsert_kept h
  unfold Canonical.upsertEod
  simp only
  rw [← hrow, Function.update_eq_self]

theorem upsertMinute_kept {slot : Canonical.MinuteSlot} {values : Canonical.MinuteValues}
    (h : (Canonical.upsertMinute ctx slot values t).2 = false) :
    (Canonical.upsertMinute ctx slot values t).1 = t := by
  have hrow := upsert_kept h
  unfold Canonical.upsertMinute
  simp only
  rw [← hrow, Function.update_eq_self]

theorem eodCloses_applied {slot : Canonical.EodSlot} {values : Canonical.EodValues}
    (h : (Canonical.upsertEod ctx slot values t).2 = true) (i : Uuid) :
    eodCloses (Canonical.upsertEod ctx slot values t).1 i =
      if i = slot.instrumentId then putKey (eodCloses t i) slot.tradeDate values.close
      else eodCloses t i := by
  have hrow := upsert_written h
  funext date close
  unfold eodCloses Canonical.upsertEod
  simp only
  by_cases hi : i = slot.instrumentId
  · rw [if_pos hi]
    unfold putKey
    by_cases hd : date = slot.tradeDate
    · rw [if_pos hd, hi, hd, Function.update_self]
      refine propext ⟨?_, fun hclose => ⟨_, rfl, ?_⟩⟩
      · rintro ⟨row, hstored, hclose⟩
        cases hstored
        rw [← hclose, hrow]
        rfl
      · rw [hclose, hrow]
        rfl
    · rw [if_neg hd, Function.update_of_ne fun heq => hd (congrArg Canonical.EodSlot.tradeDate heq)]
  · rw [if_neg hi, Function.update_of_ne fun heq => hi (congrArg Canonical.EodSlot.instrumentId heq)]

/-- Times that are the same instant are the same. -/
theorem instantOf_injective {t u : UtcTime} (h : instantOf t = instantOf u) : t = u := by
  have hlo : ∀ t : UtcTime, 0 ≤ t.toMicros + epochOffset := by
    intro t
    have hyear := (CivilDate.inYear_toordinal t.date).1
    have hfirst := firstDay_mono (show (1 : Int) ≤ t.date.year by exact_mod_cast t.date.valid.1.1)
    have hone : firstDay 1 = -719162 := by decide
    unfold UtcTime.toMicros UtcTime.toSeconds epochOffset
    omega
  have ht := hlo t
  have hu := hlo u
  have hnat : (t.toMicros + epochOffset).toNat = (u.toMicros + epochOffset).toNat := h
  have hint := congrArg (Nat.cast : ℕ → ℤ) hnat
  rw [Int.toNat_of_nonneg ht, Int.toNat_of_nonneg hu] at hint
  have hmicros : t.toMicros = u.toMicros := by omega
  have hof := UtcTime.ofMicros_eq_some.mpr hmicros
  rw [UtcTime.ofMicros_eq_some.mpr rfl] at hof
  exact (Option.some.inj hof).symm

/-- The slot of a bar, under the local date of its start. -/
def DatedSlot (lang : Language) (slot : Canonical.MinuteSlot) : Prop :=
  ∃ start : UtcTime, slot.barStartTime = instantOf start ∧
    slot.tradeDate = (lang.taipeiDate start).toordinal

variable {lang : Language}

theorem minuteDated_upsert {slot : Canonical.MinuteSlot} {values : Canonical.MinuteValues}
    (ht : MinuteDated lang t) (hslot : DatedSlot lang slot) :
    MinuteDated lang (Canonical.upsertMinute ctx slot values t).1 := by
  intro slot' row hrow
  by_cases hs : slot' = slot
  · rw [hs]
    exact hslot
  · unfold Canonical.upsertMinute at hrow
    simp only [Function.update_of_ne hs] at hrow
    exact ht slot' row hrow

theorem minuteCloses_applied {slot : Canonical.MinuteSlot} {values : Canonical.MinuteValues}
    (ht : MinuteDated lang t) (hslot : DatedSlot lang slot)
    (h : (Canonical.upsertMinute ctx slot values t).2 = true) (i : Uuid) :
    minuteCloses (Canonical.upsertMinute ctx slot values t).1 i =
      if i = slot.instrumentId then putKey (minuteCloses t i) slot.barStartTime values.close
      else minuteCloses t i := by
  have hrow := upsert_written h
  obtain ⟨start, hstart, hdate⟩ := hslot
  funext at_ close
  unfold minuteCloses Canonical.upsertMinute
  simp only
  by_cases hi : i = slot.instrumentId
  · rw [if_pos hi]
    unfold putKey
    by_cases hk : at_ = slot.barStartTime
    · rw [if_pos hk, hi, hk]
      refine propext ⟨?_, fun hclose => ⟨slot.tradeDate, _, Function.update_self .., ?_⟩⟩
      · rintro ⟨date, row, hstored, hclose⟩
        -- a start has one date
        have hd : date = slot.tradeDate := by
          by_contra hne
          rw [Function.update_of_ne fun heq => hne (congrArg Canonical.MinuteSlot.tradeDate heq)] at hstored
          obtain ⟨start', hstart', hdate'⟩ := ht _ row hstored
          have hsame : start' = start := instantOf_injective (hstart'.symm.trans hstart)
          exact hne (by rw [hdate, ← hsame]; exact hdate')
        rw [hd, Function.update_self] at hstored
        cases hstored
        rw [← hclose, hrow]
        rfl
      · rw [hclose, hrow]
        rfl
    · rw [if_neg hk]
      have hother : ∀ date, (⟨i, date, at_⟩ : Canonical.MinuteSlot) ≠ slot :=
        fun date heq => hk (congrArg Canonical.MinuteSlot.barStartTime heq)
      simp only [Function.update_of_ne (hother _)]
  · rw [if_neg hi]
    have hother : ∀ date, (⟨i, date, at_⟩ : Canonical.MinuteSlot) ≠ slot :=
      fun date heq => hi (congrArg Canonical.MinuteSlot.instrumentId heq)
    simp only [Function.update_of_ne (hother _)]

/-! ## One statement on the statistics -/

/-- The statistics of the instruments, one of them upserted. -/
def putStats (stats : Uuid → Option InstrumentStats) (i : Uuid) (excluded : InstrumentStats)
    (update : InstrumentStats → InstrumentStats → InstrumentStats) : Uuid → Option InstrumentStats :=
  Function.update stats i (some (statsRow update (stats i) excluded))

/-- A daily write that was applied, and its statistics. -/
theorem statsRead_eod {slot : Canonical.EodSlot} {values : Canonical.EodValues} {now : Instant}
    {stats : Uuid → Option InstrumentStats} (hstats : ∀ i, StatsRead t i (stats i))
    (h : (Canonical.upsertEod ctx slot values t).2 = true) (i : Uuid) :
    StatsRead (Canonical.upsertEod ctx slot values t).1 i (putStats stats slot.instrumentId
      (eodStats slot.tradeDate values.close true now) InstrumentStats.withEod i) := by
  have hminute : minuteCloses (Canonical.upsertEod ctx slot values t).1 i = minuteCloses t i := rfl
  have heod := eodCloses_applied h i
  unfold putStats
  by_cases hi : i = slot.instrumentId
  · rw [if_pos hi, ← override_single] at heod
    rw [hi, Function.update_self, ← hi]
    have hold := hstats i
    cases hrow : stats i with
    | none =>
      rw [hrow] at hold
      refine ⟨?_, ?_⟩
      · rw [heod]
        exact reads_inserted hold.1 spans_single
      · rw [hminute]
        exact Or.inl ⟨rfl, rfl, hold.2⟩
    | some s =>
      rw [hrow] at hold
      refine ⟨?_, ?_⟩
      · rw [heod]
        exact hold.1.merge spans_single
      · rw [hminute]
        exact hold.2
  · rw [if_neg hi] at heod
    rw [Function.update_of_ne hi]
    have hold := hstats i
    unfold StatsRead at hold ⊢
    rw [heod, hminute]
    exact hold

/-- Futures columns read no rows of these tables. -/
theorem statsRead_futures {excluded : InstrumentStats} {date : Date} {now : Instant}
    {stats : Uuid → Option InstrumentStats} (hexcluded : excluded = futuresStats date now)
    (hstats : ∀ i, StatsRead t i (stats i)) (j i : Uuid) :
    StatsRead t i (putStats stats j excluded InstrumentStats.withFutures i) := by
  unfold putStats
  by_cases hi : i = j
  · rw [hi, Function.update_self]
    have hold := hstats j
    cases hrow : stats j with
    | none =>
      rw [hrow] at hold
      rw [hexcluded]
      exact ⟨Or.inl ⟨rfl, rfl, hold.1⟩, Or.inl ⟨rfl, rfl, hold.2⟩⟩
    | some s =>
      rw [hrow] at hold
      exact hold
  · rw [Function.update_of_ne hi]
    exact hstats i

end

end FinDB.Normalize
