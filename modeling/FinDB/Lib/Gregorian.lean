import Mathlib.Data.List.Nodup
import Mathlib.Data.List.Perm.Subperm

/-! # Years and their days

Dates are day numbers from 1 January 1970 and years are proleptic Gregorian. A
list without repetition that stays inside one year and is as long as the year
is the whole year. -/
namespace FinDB.Lib

/-- `calendar.isleap`. -/
def isLeap (year : Int) : Bool := year % 4 == 0 && (year % 100 != 0 || year % 400 == 0)

def daysIn (year : Int) : Nat := if isLeap year then 366 else 365

/-- `date(year, 1, 1)`. -/
def firstDay (year : Int) : Int :=
  365 * (year - 1) + (year - 1) / 4 - (year - 1) / 100 + (year - 1) / 400 - 719162

/-- `date.weekday()`: Monday is 0. -/
def weekday (date : Int) : Nat := ((date + 3) % 7).toNat

theorem firstDay_succ (year : Int) : firstDay (year + 1) = firstDay year + daysIn year := by
  unfold daysIn
  split
  · rename_i h
    simp only [isLeap, Bool.and_eq_true, Bool.or_eq_true, beq_iff_eq, bne_iff_ne, ne_eq] at h
    simp only [firstDay]
    omega
  · rename_i h
    simp only [isLeap, Bool.and_eq_true, Bool.or_eq_true, beq_iff_eq, bne_iff_ne, ne_eq] at h
    simp only [firstDay]
    omega

theorem firstDay_mono {y z : Int} (h : y ≤ z) : firstDay y ≤ firstDay z := by
  simp only [firstDay]
  omega

/-- `date.year == year`. -/
def InYear (year date : Int) : Prop := firstDay year ≤ date ∧ date < firstDay (year + 1)

instance (year date : Int) : Decidable (InYear year date) :=
  inferInstanceAs (Decidable (_ ∧ _))

/-- A date has one year. -/
theorem InYear.unique {y z date : Int} (hy : InYear y date) (hz : InYear z date) : y = z := by
  rcases Int.lt_trichotomy y z with h | h | h
  · have := firstDay_mono (show y + 1 ≤ z by omega)
    have := hy.2
    have := hz.1
    omega
  · exact h
  · have := firstDay_mono (show z + 1 ≤ y by omega)
    have := hz.2
    have := hy.1
    omega

/-- `date.year`: 400 years have 146097 days, so the quotient is off by at most one. -/
def yearOf (date : Int) : Int :=
  let guess := 400 * (date + 719162) / 146097 + 1
  if date < firstDay guess then guess - 1
  else if firstDay (guess + 1) ≤ date then guess + 1
  else guess

theorem inYear_yearOf (date : Int) : InYear (yearOf date) date := by
  unfold yearOf
  simp only
  generalize hg : 400 * (date + 719162) / 146097 + 1 = guess
  split
  · refine ⟨?_, by rwa [Int.sub_add_cancel]⟩
    simp only [firstDay]
    omega
  · split
    · refine ⟨by assumption, ?_⟩
      simp only [firstDay]
      omega
    · constructor <;> omega

/-- Every date of the year, in order. -/
def yearDays (year : Int) : List Int :=
  (List.range (daysIn year)).map fun (offset : Nat) => firstDay year + offset

@[simp] theorem length_yearDays (year : Int) : (yearDays year).length = daysIn year := by
  simp [yearDays]

theorem mem_yearDays {year date : Int} : date ∈ yearDays year ↔ InYear year date := by
  simp only [yearDays, List.mem_map, List.mem_range, InYear, firstDay_succ]
  constructor
  · rintro ⟨offset, hlt, rfl⟩
    omega
  · rintro ⟨hle, hlt⟩
    exact ⟨(date - firstDay year).toNat, by omega, by omega⟩

theorem nodup_yearDays (year : Int) : (yearDays year).Nodup := by
  refine List.Nodup.map (fun a b h => ?_) List.nodup_range
  omega

/-- Counting is enough: as many distinct dates of the year as it has days. -/
theorem perm_yearDays {year : Int} {dates : List Int} (hnodup : dates.Nodup)
    (hin : ∀ date ∈ dates, InYear year date) (hlen : dates.length = daysIn year) :
    dates.Perm (yearDays year) := by
  have hsub : dates.Subperm (yearDays year) :=
    hnodup.subperm fun date hdate => mem_yearDays.mpr (hin date hdate)
  exact hsub.perm_of_length_le (by simp [hlen])

/-- A list that is a year up to order holds exactly its dates. -/
theorem mem_of_perm_yearDays {year : Int} {dates : List Int} (h : dates.Perm (yearDays year))
    {date : Int} : date ∈ dates ↔ InYear year date := by
  rw [h.mem_iff]
  exact mem_yearDays

/-- The dates from `start` to `stop`, both included. -/
def dateRange (start stop : Int) : List Int :=
  (List.range (stop - start + 1).toNat).map fun (offset : Nat) => start + offset

theorem mem_dateRange {start stop date : Int} :
    date ∈ dateRange start stop ↔ start ≤ date ∧ date ≤ stop := by
  simp only [dateRange, List.mem_map, List.mem_range]
  constructor
  · rintro ⟨offset, hlt, rfl⟩
    omega
  · rintro ⟨hle, hge⟩
    exact ⟨(date - start).toNat, by omega, by omega⟩

theorem nodup_dateRange (start stop : Int) : (dateRange start stop).Nodup := by
  refine List.Nodup.map (fun a b h => ?_) List.nodup_range
  omega

end FinDB.Lib
