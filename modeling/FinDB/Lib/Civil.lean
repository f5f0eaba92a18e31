import FinDB.Lib.Iso

/-! # Dates by their day numbers

The months of a year follow each other without a gap, so a date and its number name
each other and compare alike. -/
namespace FinDB.Lib

/-! ## Months -/

/-- The days of the first `k` months. -/
def monthOffset (year : Nat) : Nat → Nat
  | 0 => 0
  | k + 1 => monthOffset year k + monthDays year (k + 1)

theorem monthOffset_mono {year j k : Nat} (h : j ≤ k) : monthOffset year j ≤ monthOffset year k := by
  induction k, h using Nat.le_induction with
  | base => exact le_rfl
  | succ k _ ih => exact le_trans ih (Nat.le_add_right _ _)

/-- Twelve months are a year. -/
theorem monthOffset_twelve (year : Nat) : monthOffset year 12 = daysIn year := by
  unfold daysIn
  cases h : isLeap year <;> simp [monthOffset, monthDays, h]

/-- The number of the first day of a month. -/
def monthStart (year month : Nat) : Int := firstDay year + monthOffset year (month - 1)

/-- A month is over before the next one starts. -/
theorem monthStart_le {y m y' m' : Nat} (hm : 1 ≤ m ∧ m ≤ 12) (hm' : 1 ≤ m')
    (h : y < y' ∨ y = y' ∧ m < m') : monthStart y m + monthDays y m ≤ monthStart y' m' := by
  obtain ⟨k, rfl⟩ : ∃ k, m = k + 1 := ⟨m - 1, by omega⟩
  have hnext : monthStart y (k + 1) + monthDays y (k + 1) = firstDay y + monthOffset y (k + 1) := by
    unfold monthStart
    rw [Nat.add_sub_cancel]
    simp only [monthOffset]
    omega
  rw [hnext]
  rcases h with hy | ⟨rfl, hlt⟩
  · have hle := @monthOffset_mono y _ _ hm.2
    rw [monthOffset_twelve] at hle
    have hsucc := firstDay_succ y
    have hmono := firstDay_mono (show (y : Int) + 1 ≤ y' by omega)
    unfold monthStart
    omega
  · have hle := @monthOffset_mono y (k + 1) (m' - 1) (by omega)
    unfold monthStart
    omega

/-- The first such weekday of a month; Monday is 0. -/
def firstWeekday (year month weekday_ : Nat) : Int :=
  monthStart year month + (weekday_ + 7 - weekday (monthStart year month)) % 7

/-- The `n`-th such weekday of a month, if the month has one. -/
def nthWeekday (year month weekday_ n : Nat) : Option Int :=
  let date := firstWeekday year month weekday_ + 7 * (n - 1)
  if (1 ≤ year ∧ year ≤ 9999) ∧ (1 ≤ month ∧ month ≤ 12) ∧
      date < monthStart year month + monthDays year month then some date
  else none

theorem firstWeekday_bounds (year month weekday_ : Nat) :
    monthStart year month ≤ firstWeekday year month weekday_ ∧
      firstWeekday year month weekday_ < monthStart year month + 7 := by
  unfold firstWeekday
  omega

theorem nthWeekday_eq_some {year month weekday_ n : Nat} {date : Int} :
    nthWeekday year month weekday_ n = some date ↔
      ((1 ≤ year ∧ year ≤ 9999) ∧ (1 ≤ month ∧ month ≤ 12) ∧
        date < monthStart year month + monthDays year month) ∧
      date = firstWeekday year month weekday_ + 7 * (n - 1) := by
  unfold nthWeekday
  simp only
  split
  · rename_i h
    rw [Option.some.injEq]
    exact ⟨fun he => ⟨he ▸ h, he.symm⟩, fun he => he.2.symm⟩
  · rename_i h
    refine ⟨(fun he => by cases he), fun he => absurd ?_ h⟩
    exact he.2 ▸ he.1

namespace CivilDate

/-! ## The number of a date -/

/-- `date.toordinal()`, from 1 January 1970. -/
def toordinal (d : CivilDate) : Int := monthStart d.year d.month + (d.day - 1 : Nat)

variable {a b d : CivilDate}

theorem offset_lt (d : CivilDate) :
    monthOffset d.year (d.month - 1) + (d.day - 1) < monthOffset d.year d.month := by
  obtain ⟨-, ⟨hm, -⟩, hd, hle⟩ := d.valid
  obtain ⟨k, hk⟩ : ∃ k, d.month = k + 1 := ⟨d.month - 1, by omega⟩
  rw [hk] at hle ⊢
  change monthOffset d.year k + (d.day - 1) < monthOffset d.year k + monthDays d.year (k + 1)
  omega

theorem inYear_toordinal (d : CivilDate) : InYear d.year d.toordinal := by
  have hlt := d.offset_lt
  have hle := @monthOffset_mono d.year _ _ d.valid.2.1.2
  rw [monthOffset_twelve] at hle
  have hsucc := firstDay_succ d.year
  unfold InYear toordinal monthStart
  omega

/-- Dates compare as their numbers. -/
theorem toordinal_lt_of_lt (h : a < b) : a.toordinal < b.toordinal := by
  have hya := a.inYear_toordinal.2
  have hyb := b.inYear_toordinal.1
  have ha := a.offset_lt
  have hday := a.day_le
  have hday' := b.day_le
  obtain ⟨-, ⟨_, ham⟩, hd, -⟩ := a.valid
  obtain ⟨-, ⟨_, hbm⟩, hd', -⟩ := b.valid
  rw [lt_iff] at h
  unfold ordinal at h
  rcases Nat.lt_or_ge a.year b.year with hlt | hge
  · have hmono := firstDay_mono (show (a.year : Int) + 1 ≤ b.year by omega)
    omega
  have hyear : a.year = b.year := by omega
  rw [hyear] at ha
  unfold toordinal monthStart
  rw [hyear]
  rcases Nat.lt_or_ge a.month b.month with hlt | hge
  · have hmono := @monthOffset_mono b.year a.month (b.month - 1) (by omega)
    omega
  · have hmonth : a.month = b.month := by omega
    rw [hmonth]
    omega

theorem toordinal_lt_iff : a.toordinal < b.toordinal ↔ a < b := by
  refine ⟨fun h => ?_, toordinal_lt_of_lt⟩
  rcases lt_trichotomy a b with hlt | rfl | hgt
  · exact hlt
  · exact absurd h (lt_irrefl _)
  · exact absurd h (lt_asymm (toordinal_lt_of_lt hgt))

theorem toordinal_injective : Function.Injective toordinal := by
  intro a b h
  rcases lt_trichotomy a b with hlt | he | hgt
  · exact absurd h (ne_of_lt (toordinal_lt_of_lt hlt))
  · exact he
  · exact absurd h.symm (ne_of_lt (toordinal_lt_of_lt hgt))

/-! ## The date of a number -/

/-- `date.fromordinal(n)`: years outside `1 .. 9999` are out of range. -/
def fromordinal (n : Int) : Option CivilDate := do
  let year := (yearOf n).toNat
  let offset := (n - firstDay (yearOf n)).toNat
  let k ← (List.range 12).find? fun k => decide (offset < monthOffset year (k + 1))
  if valid : (1 ≤ year ∧ year ≤ 9999) ∧ (1 ≤ k + 1 ∧ k + 1 ≤ 12) ∧
      1 ≤ offset - monthOffset year k + 1 ∧
      offset - monthOffset year k + 1 ≤ monthDays year (k + 1) then
    return ⟨year, k + 1, offset - monthOffset year k + 1, valid⟩
  else none

/-- The month is the first one that ends after the day. -/
theorem find?_month {year offset k : Nat} :
    ((List.range 12).find? fun k => decide (offset < monthOffset year (k + 1))) = some k ↔
      k < 12 ∧ monthOffset year k ≤ offset ∧ offset < monthOffset year (k + 1) := by
  rw [List.find?_range_eq_some]
  simp only [decide_eq_true_eq, Bool.not_eq_true', decide_eq_false_iff_not, List.mem_range]
  constructor
  · rintro ⟨hlt, hk, hbefore⟩
    refine ⟨hk, ?_, hlt⟩
    cases k with
    | zero => exact Nat.zero_le _
    | succ k => exact Nat.le_of_not_lt (hbefore k (Nat.lt_succ_self k))
  · rintro ⟨hk, hle, hlt⟩
    exact ⟨hlt, hk, fun j hj => Nat.not_lt.mpr (le_trans (monthOffset_mono hj) hle)⟩

theorem toordinal_of_fromordinal {n : Int} (h : fromordinal n = some d) : d.toordinal = n := by
  unfold fromordinal at h
  simp only [Option.bind_eq_bind, Option.bind_eq_some_iff] at h
  obtain ⟨k, hk, h⟩ := h
  obtain ⟨-, hle, hlt⟩ := find?_month.mp hk
  split at h
  · rename_i hvalid
    cases h
    have hyear : ((yearOf n).toNat : Int) = yearOf n := Int.toNat_of_nonneg (by omega)
    have hin := inYear_yearOf n
    unfold InYear at hin
    unfold toordinal monthStart
    simp only [hyear, Nat.add_sub_cancel]
    omega
  · cases h

theorem fromordinal_toordinal (d : CivilDate) : fromordinal d.toordinal = some d := by
  have hyear : yearOf d.toordinal = d.year :=
    (inYear_yearOf _).unique d.inYear_toordinal
  obtain ⟨hy, hm, hd, hle⟩ := d.valid
  obtain ⟨k, hk⟩ : ∃ k, d.month = k + 1 := ⟨d.month - 1, by omega⟩
  have hoffset : (d.toordinal - firstDay d.year).toNat = monthOffset d.year k + (d.day - 1) := by
    unfold toordinal monthStart
    rw [hk, Nat.add_sub_cancel]
    omega
  have hday : monthOffset d.year k + (d.day - 1) - monthOffset d.year k + 1 = d.day := by omega
  have hfind := @find?_month d.year (monthOffset d.year k + (d.day - 1)) k
  have hlt := d.offset_lt
  rw [hk, Nat.add_sub_cancel] at hlt
  unfold fromordinal
  simp only [hyear, hoffset, Int.toNat_natCast]
  rw [hfind.mpr ⟨by omega, by omega, hlt⟩]
  simp only [Option.bind_eq_bind, Option.bind_some, hday]
  rw [dif_pos ⟨hy, by omega, by omega, hk ▸ hle⟩]
  obtain ⟨year, month, day, valid⟩ := d
  change month = k + 1 at hk
  subst hk
  rfl

theorem fromordinal_eq_some {n : Int} : fromordinal n = some d ↔ d.toordinal = n :=
  ⟨toordinal_of_fromordinal, fun h => h ▸ fromordinal_toordinal d⟩

end CivilDate

/-! ## Times by their microseconds -/

namespace UtcTime

/-- Seconds since 1 January 1970. -/
def toSeconds (t : UtcTime) : Int := t.date.toordinal * 86400 + t.seconds

/-- Microseconds since 1 January 1970. -/
def toMicros (t : UtcTime) : Int := t.toSeconds * 1000000 + t.micros

theorem toMicros_div (t : UtcTime) : t.toMicros / 1000000 = t.toSeconds := by
  have := t.valid.2
  unfold toMicros
  omega

theorem toMicros_mod (t : UtcTime) : t.toMicros % 1000000 = t.micros := by
  have := t.valid.2
  unfold toMicros
  omega

/-- The time of a number, if it has a date. -/
def ofMicros (n : Int) : Option UtcTime := do
  let date ← CivilDate.fromordinal (n / 86400000000)
  return ⟨date, (n / 1000000 % 86400).toNat, (n % 1000000).toNat, by omega⟩

theorem ofMicros_eq_some {n : Int} {t : UtcTime} : ofMicros n = some t ↔ t.toMicros = n := by
  unfold ofMicros
  simp only [Option.bind_eq_bind, Option.bind_eq_some_iff, CivilDate.fromordinal_eq_some]
  constructor
  · rintro ⟨date, hdate, h⟩
    cases h
    unfold toMicros toSeconds
    simp only [hdate]
    omega
  · intro h
    obtain ⟨hs, hm⟩ := t.valid
    refine ⟨t.date, ?_, ?_⟩
    · unfold toMicros toSeconds at h
      omega
    · have hdiv := t.toMicros_div
      have hmod := t.toMicros_mod
      rw [h] at hdiv hmod
      have hsec : (n / 1000000 % 86400).toNat = t.seconds := by
        rw [hdiv]
        unfold toSeconds
        omega
      have hmicros : (n % 1000000).toNat = t.micros := by
        rw [hmod]
        exact Int.toNat_natCast _
      simp only [hsec, hmicros]
      rfl

end UtcTime
end FinDB.Lib
