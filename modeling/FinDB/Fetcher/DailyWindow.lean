import FinDB.Lib.Civil
import FinDB.Lib.Json
import FinDB.Lib.Raise

/-! # The daily acquisition window

A policy names a zone and two times of day. The Fetcher and the Source compute on wall clocks
whether the window is open and when that changes. A window whose end is before its start
crosses midnight. -/
namespace FinDB.Fetcher.DailyWindow
open FinDB.Lib

/-- A day in microseconds. -/
def day : Int := 86400000000

/-- `datetime.time`. -/
structure TimeOfDay where
  seconds : Nat
  micros : Nat
  valid : seconds < 86400 ∧ micros < 1000000

def TimeOfDay.toMicros (t : TimeOfDay) : Int := (t.seconds : Int) * 1000000 + t.micros

/-- A zone: the offset of an instant and the offset of a wall clock. -/
structure Zone where
  utcoffset : Int → Int
  wallOffset : Int → Int

/-- What both sides take from the language. -/
structure Clock where
  /-- `ZoneInfo(key)`. -/
  zoneInfo : String → Option Zone
  /-- `time.fromisoformat`, and whether the time has a zone. -/
  time : String → Option (TimeOfDay × Bool)

section
variable (lib : Clock)

/-! ## Policies -/

def policyKeys : List String := ["end", "max_members", "max_seconds", "start", "timezone"]

/-- `policy[key]` as a text. -/
def textField (policy : Json) (key : String) : Except String String :=
  match policy with
  | .obj fields =>
    match getField key fields with
    | some (.str s) => .ok s
    | _ => .error "field invalid"
  | _ => .error "policy invalid"

def zoneOf (policy : Json) : Except String Zone := do
  need (lib.zoneInfo (← textField policy "timezone")) "zone unknown"

def timeOf (policy : Json) (key : String) : Except String (TimeOfDay × Bool) := do
  need (lib.time (← textField policy key)) "Invalid isoformat string"

/-- `type(value) is int and value >= 1`. -/
def isBound : Json → Bool
  | .int n => decide (1 ≤ n)
  | _ => false

/-- The check of one policy. A dictionary is its fields in key order. -/
def validatePolicy (policy : Json) : Except String Unit := do
  match policy with
  | .obj fields =>
    ensure (fields.map (·.1) == policyKeys) "daily runtime policy shape invalid"
    let _ ← zoneOf lib policy
    let start ← timeOf lib policy "start"
    let end_ ← timeOf lib policy "end"
    ensure (!(start.2 || end_.2 || start.1.toMicros == end_.1.toMicros))
      "daily runtime window invalid"
    ensure ((getField "max_members" fields).any isBound && (getField "max_seconds" fields).any isBound)
      "daily runtime slice bound invalid"
  | _ => .error "daily runtime policy shape invalid"

/-- `validate_policies`. -/
def validatePolicies (policies : Json) : Except String Unit :=
  match policies with
  | .obj fields => fields.forM fun f => validatePolicy lib f.2
  | _ => .error "daily runtime policy scope invalid"

/-! ## The window -/

/-- An aware time: its wall clock and its offset. -/
structure Aware where
  wall : UtcTime
  offset : Int
deriving DecidableEq

/-- The instant of an aware time. -/
def Aware.instant (t : Aware) : Int := t.wall.toMicros - t.offset

structure Report where
  open_ : Bool
  nextOpenAt : Option Aware
  closesAt : Option Aware
deriving DecidableEq

/-- `datetime.combine`. -/
def combine (date : CivilDate) (t : TimeOfDay) : UtcTime := ⟨date, t.seconds, t.micros, t.valid⟩

/-- `t + timedelta(..)`. -/
def shift (t : UtcTime) (micros : Int) : Except String UtcTime :=
  need (UtcTime.ofMicros (t.toMicros + micros)) "date value out of range"

/-- `now.astimezone(zone)`. -/
def astimezone (zone : Zone) (now : UtcTime) : Except String UtcTime :=
  shift now (zone.utcoffset now.toMicros)

/-- The bounds around a wall clock: one is moved by a day when the end is before the start. -/
def bounds (local_ start end_ : UtcTime) : Except String (UtcTime × UtcTime) := do
  if end_ < start then
    if local_ < end_ then return (← shift start (-day), end_)
    else return (start, ← shift end_ day)
  else return (start, end_)

/-- `start if local < start else start + timedelta(days=1)`. -/
def nextStart (local_ start : UtcTime) : Except String UtcTime :=
  if local_ < start then .ok start else shift start day

/-- The part behind the reading of the policy. -/
def report (zone : Zone) (start end_ : TimeOfDay) (now : UtcTime) : Except String Report := do
  let local_ ← astimezone zone now
  let (start, end_) ← bounds local_ (combine local_.date start) (combine local_.date end_)
  let opened := decide (start ≤ local_ ∧ local_ < end_)
  let next ← nextStart local_ start
  let aware (wall : UtcTime) : Aware := ⟨wall, zone.wallOffset wall.toMicros⟩
  return {
    open_ := opened
    nextOpenAt := if opened then none else some (aware next)
    closesAt := if opened then some (aware end_) else none }

/-- `window`. -/
def window (policy : Option Json) (now : UtcTime) : Except String Report :=
  match policy with
  | none => .ok ⟨true, none, none⟩
  | some policy => do
    let zone ← zoneOf lib policy
    let start ← timeOf lib policy "start"
    let end_ ← timeOf lib policy "end"
    report zone start.1 end_.1 now

/-- `catalog["daily_runtime_policies"].get(provider)`. -/
def catalogPolicy (catalog : Json) (provider : String) : Except String (Option Json) :=
  match catalog with
  | .obj fields =>
    match getField "daily_runtime_policies" fields with
    | some (.obj policies) => .ok (getField provider policies)
    | _ => .error "daily_runtime_policies"
  | _ => .error "catalog"

/-- The Source's `daily_window`; without a time it takes the clock. -/
def dailyWindow (catalog : Json) (utcNow : UtcTime) (provider : String) (now : Option UtcTime) :
    Except String Report := do
  match ← catalogPolicy catalog provider with
  | none => return ⟨true, none, none⟩
  | some policy =>
    let clock := now.getD utcNow
    let zone ← zoneOf lib policy
    let start ← timeOf lib policy "start"
    let end_ ← timeOf lib policy "end"
    report zone start.1 end_.1 clock

end

/-! ## The cyclic interval -/

/-- The local time of day of an instant, at a fixed offset. -/
def timeOfDay (offset instant : Int) : Int := (instant + offset) % day

/-- A time of day from `start` on and before `end_`, past midnight where `end_` is first. -/
def InWindow (start end_ x : Int) : Prop :=
  if start < end_ then start ≤ x ∧ x < end_ else start ≤ x ∨ x < end_

def HasDate (n : Int) : Prop := ∃ d : CivilDate, d.toordinal = n

/-- The wall clocks a report is computed from have dates. -/
def Reaches (start end_ offset : Int) (now : UtcTime) : Prop :=
  ∃ local_ : UtcTime, local_.toMicros = now.toMicros + offset ∧
    (end_ < start ∧ local_.toMicros % day < end_ → HasDate (local_.date.toordinal - 1)) ∧
    (start ≤ local_.toMicros % day ∨ end_ < start ∧ end_ ≤ local_.toMicros % day →
      HasDate (local_.date.toordinal + 1))

/-- What a report says at an instant. -/
structure Answers (start end_ offset now : Int) (r : Report) : Prop where
  opened : r.open_ = true ↔ InWindow start end_ (timeOfDay offset now)
  next : r.open_ = false → r.closesAt = none ∧ ∃ next, r.nextOpenAt = some next ∧
    IsLeast {t | now < t ∧ InWindow start end_ (timeOfDay offset t)} next.instant
  closes : r.open_ = true → r.nextOpenAt = none ∧ ∃ closes, r.closesAt = some closes ∧
    IsLeast {t | now < t ∧ ¬ InWindow start end_ (timeOfDay offset t)} closes.instant

/-! ## Wall clocks -/

theorem toMicros_lt_iff {t u : UtcTime} : t < u ↔ t.toMicros < u.toMicros := by
  have ht := t.valid
  have hu := u.valid
  have hdate := @CivilDate.toordinal_lt_iff t.date u.date
  have heq := CivilDate.toordinal_injective.eq_iff (a := t.date) (b := u.date)
  rw [CivilDate.lt_iff] at hdate
  change t.ordinal < u.ordinal ↔ _
  unfold UtcTime.ordinal UtcTime.toMicros UtcTime.toSeconds
  rcases lt_trichotomy t.date.toordinal u.date.toordinal with hlt | he | hgt
  · have := hdate.mp hlt
    omega
  · have := congrArg CivilDate.ordinal (heq.mp he)
    omega
  · have := (@CivilDate.toordinal_lt_iff u.date t.date).mp hgt
    rw [CivilDate.lt_iff] at this
    omega

theorem toMicros_le_iff {t u : UtcTime} : t ≤ u ↔ t.toMicros ≤ u.toMicros := by
  rw [← not_lt, ← not_lt, toMicros_lt_iff]

theorem TimeOfDay.bounds (t : TimeOfDay) : 0 ≤ t.toMicros ∧ t.toMicros < day := by
  obtain ⟨hs, hm⟩ := t.valid
  unfold toMicros day
  omega

theorem toMicros_combine (date : CivilDate) (t : TimeOfDay) :
    (combine date t).toMicros = date.toordinal * day + t.toMicros := by
  unfold combine UtcTime.toMicros UtcTime.toSeconds TimeOfDay.toMicros day
  dsimp only
  omega

theorem toMicros_eq (t : UtcTime) : t.toMicros = t.date.toordinal * day + t.toMicros % day := by
  obtain ⟨hs, hm⟩ := t.valid
  unfold UtcTime.toMicros UtcTime.toSeconds day
  omega

theorem shift_ok {t u : UtcTime} {n : Int} : shift t n = .ok u ↔ u.toMicros = t.toMicros + n := by
  unfold shift
  rw [need_ok, UtcTime.ofMicros_eq_some]

/-! ## The bounds around a time of day -/

/-- The window of the day `days` that is open at `x` or is the next to open. -/
def Around (start end_ days x opens ends : Int) : Prop :=
  end_ < start ∧ x < end_ ∧ opens = days * day + start - day ∧ ends = days * day + end_ ∨
  end_ < start ∧ end_ ≤ x ∧ opens = days * day + start ∧ ends = days * day + end_ + day ∨
  start < end_ ∧ opens = days * day + start ∧ ends = days * day + end_

section
variable {start end_ days x opens ends : Int}

theorem Around.open_iff (h : Around start end_ days x opens ends) (hx : 0 ≤ x ∧ x < day)
    (hstart : 0 ≤ start ∧ start < day) (hend : 0 ≤ end_ ∧ end_ < day) :
    opens ≤ days * day + x ∧ days * day + x < ends ↔ InWindow start end_ x := by
  unfold Around at h
  unfold InWindow
  unfold day at *
  split <;> omega

/-- Past `x` and before the window opens again, every time of day is outside. -/
theorem Around.next (h : Around start end_ days x opens ends) (hx : 0 ≤ x ∧ x < day)
    (hstart : 0 ≤ start ∧ start < day) (hend : 0 ≤ end_ ∧ end_ < day)
    (hclosed : ¬ InWindow start end_ x) {next : Int}
    (hnext : next = if days * day + x < opens then opens else opens + day) :
    days * day + x < next ∧ InWindow start end_ (next % day) ∧
      ∀ t, days * day + x < t → InWindow start end_ (t % day) → next ≤ t := by
  unfold Around at h
  unfold InWindow at *
  unfold day at *
  refine ⟨?_, ?_, fun t ht hin => ?_⟩
  · split at hnext <;> split at hclosed <;> omega
  · split at hnext <;> split at hclosed <;> split <;> omega
  · split at hnext <;> split at hclosed <;> split at hin <;> omega

/-- Past `x` and before the window closes, every time of day is inside. -/
theorem Around.closes (h : Around start end_ days x opens ends) (hx : 0 ≤ x ∧ x < day)
    (hstart : 0 ≤ start ∧ start < day) (hend : 0 ≤ end_ ∧ end_ < day)
    (hopen : InWindow start end_ x) :
    days * day + x < ends ∧ ¬ InWindow start end_ (ends % day) ∧
      ∀ t, days * day + x < t → ¬ InWindow start end_ (t % day) → ends ≤ t := by
  unfold Around at h
  unfold InWindow at *
  unfold day at *
  refine ⟨?_, ?_, fun t ht hin => ?_⟩
  · split at hopen <;> omega
  · split at hopen <;> split <;> omega
  · split at hopen <;> split at hin <;> omega

end

/-! ## Reports -/

/-- A zone with one offset. -/
def Zone.Fixed (zone : Zone) (offset : Int) : Prop :=
  (∀ t, zone.utcoffset t = offset) ∧ ∀ t, zone.wallOffset t = offset

section
variable {start end_ : TimeOfDay} {zone : Zone} {offset : Int} {now local_ : UtcTime}

theorem timeOfDay_local (hlocal : local_.toMicros = now.toMicros + offset) :
    timeOfDay offset now.toMicros = local_.toMicros % day := by
  unfold timeOfDay
  rw [hlocal]

theorem before_combine_iff {t : TimeOfDay} :
    local_ < combine local_.date t ↔ local_.toMicros % day < t.toMicros := by
  have heq := toMicros_eq local_
  rw [toMicros_lt_iff, toMicros_combine]
  omega

theorem combine_lt_iff {date : CivilDate} {s t : TimeOfDay} :
    combine date s < combine date t ↔ s.toMicros < t.toMicros := by
  rw [toMicros_lt_iff, toMicros_combine, toMicros_combine]
  omega

theorem bounds_ok (hne : start.toMicros ≠ end_.toMicros) {opens ends : UtcTime}
    (h : bounds local_ (combine local_.date start) (combine local_.date end_) = .ok (opens, ends)) :
    Around start.toMicros end_.toMicros local_.date.toordinal (local_.toMicros % day)
      opens.toMicros ends.toMicros := by
  unfold bounds at h
  simp only [combine_lt_iff, before_combine_iff] at h
  split at h
  · rename_i hcross
    split at h
    · rename_i hbefore
      obtain ⟨opens', hshift, h⟩ := ok_bind h
      cases ok_pure h
      have hopens := shift_ok.mp hshift
      rw [toMicros_combine] at hopens
      exact .inl ⟨hcross, hbefore, by omega, toMicros_combine _ _⟩
    · rename_i hbefore
      obtain ⟨ends', hshift, h⟩ := ok_bind h
      cases ok_pure h
      have hends := shift_ok.mp hshift
      rw [toMicros_combine] at hends
      exact .inr (.inl ⟨hcross, by omega, toMicros_combine _ _, hends⟩)
  · rename_i hcross
    cases ok_pure h
    exact .inr (.inr ⟨by omega, toMicros_combine _ _, toMicros_combine _ _⟩)

/-- A wall clock with the offset of the zone. -/
theorem instant_fixed (hfixed : zone.Fixed offset) (wall : UtcTime) :
    (Aware.mk wall (zone.wallOffset wall.toMicros)).instant + offset = wall.toMicros := by
  unfold Aware.instant
  rw [hfixed.2]
  exact Int.sub_add_cancel _ _

theorem report_answers (hne : start.toMicros ≠ end_.toMicros) (hfixed : zone.Fixed offset)
    {r : Report} (h : report zone start end_ now = .ok r) :
    Answers start.toMicros end_.toMicros offset now.toMicros r := by
  obtain ⟨local_, hlocal, h⟩ := ok_bind h
  obtain ⟨⟨opens, ends⟩, hbounds, h⟩ := ok_bind h
  obtain ⟨next, hnext, h⟩ := ok_bind h
  cases ok_pure h
  have hlocal := shift_ok.mp hlocal
  rw [hfixed.1] at hlocal
  have haround := bounds_ok hne hbounds
  have hx : 0 ≤ local_.toMicros % day ∧ local_.toMicros % day < day := by
    unfold day
    omega
  have heq := toMicros_eq local_
  have hopen : opens ≤ local_ ∧ local_ < ends ↔
      InWindow start.toMicros end_.toMicros (timeOfDay offset now.toMicros) := by
    rw [timeOfDay_local hlocal, toMicros_le_iff, toMicros_lt_iff,
      ← haround.open_iff hx start.bounds end_.bounds, ← heq]
  have hnext : next.toMicros = if local_.date.toordinal * day + local_.toMicros % day <
      opens.toMicros then opens.toMicros else opens.toMicros + day := by
    unfold nextStart at hnext
    rw [← heq]
    split at hnext
    · rename_i hlt
      cases hnext
      rw [if_pos (toMicros_lt_iff.mp hlt)]
    · rename_i hlt
      rw [if_neg fun h => hlt (toMicros_lt_iff.mpr h)]
      exact shift_ok.mp hnext
  refine ⟨decide_eq_true_iff.trans hopen, fun hclosed => ?_, fun hopened => ?_⟩
  · have hout : ¬ InWindow start.toMicros end_.toMicros (local_.toMicros % day) := by
      rw [← timeOfDay_local hlocal, ← hopen]
      exact of_decide_eq_false hclosed
    obtain ⟨hlater, hin, hleast⟩ := haround.next hx start.bounds end_.bounds hout hnext
    have hinstant := instant_fixed hfixed next
    dsimp only at hclosed ⊢
    rw [hclosed]
    refine ⟨rfl, _, rfl, ⟨by omega, ?_⟩, fun t ht => ?_⟩
    · unfold timeOfDay
      rw [hinstant]
      exact hin
    · have := hleast (t + offset) (by have := ht.1; omega) ht.2
      omega
  · have hin : InWindow start.toMicros end_.toMicros (local_.toMicros % day) := by
      rw [← timeOfDay_local hlocal, ← hopen]
      exact of_decide_eq_true hopened
    obtain ⟨hlater, hout, hleast⟩ := haround.closes hx start.bounds end_.bounds hin
    have hinstant := instant_fixed hfixed ends
    dsimp only at hopened ⊢
    rw [hopened]
    refine ⟨rfl, _, rfl, ⟨by omega, ?_⟩, fun t ht => ?_⟩
    · unfold timeOfDay
      rw [hinstant]
      exact hout
    · have := hleast (t + offset) (by have := ht.1; omega) ht.2
      omega

/-- The date of a wall clock. -/
theorem hasDate_of {t : UtcTime} {s : TimeOfDay} {n : Int} (h : t.toMicros = n * day + s.toMicros) :
    HasDate n := by
  obtain ⟨hs, hm⟩ := t.valid
  obtain ⟨hlo, hhi⟩ := s.bounds
  refine ⟨t.date, ?_⟩
  unfold UtcTime.toMicros UtcTime.toSeconds at h
  unfold day at *
  omega

theorem exists_shift {t : UtcTime} {s : TimeOfDay} {n m : Int} (hd : HasDate n)
    (h : t.toMicros + m = n * day + s.toMicros) : ∃ u, shift t m = .ok u := by
  obtain ⟨d, rfl⟩ := hd
  exact ⟨combine d s, shift_ok.mpr ((toMicros_combine d s).trans h.symm)⟩

theorem exists_nextStart {opens : UtcTime} (h : opens ≤ local_ → ∃ u, shift opens day = .ok u) :
    ∃ u, nextStart local_ opens = .ok u := by
  unfold nextStart
  split
  · exact ⟨opens, rfl⟩
  · rename_i hlt
    exact h (not_lt.mp hlt)

/-- A report is made exactly where its wall clocks have dates. -/
theorem report_isOk_iff (hne : start.toMicros ≠ end_.toMicros) (hfixed : zone.Fixed offset) :
    (∃ r, report zone start end_ now = .ok r) ↔ Reaches start.toMicros end_.toMicros offset now := by
  unfold report
  simp only [exists_bind]
  constructor
  · rintro ⟨local_, hlocal, ⟨opens, ends⟩, hbounds, next, hnext, -⟩
    have hlocal := shift_ok.mp hlocal
    rw [hfixed.1] at hlocal
    refine ⟨local_, hlocal, fun hbefore => ?_, fun hlate => ?_⟩
    · rcases bounds_ok hne hbounds with ⟨-, -, hopens, -⟩ | ⟨-, hle, -⟩ | ⟨hlt, -⟩
      · exact hasDate_of (s := start) (by rw [hopens]; unfold day; omega)
      · omega
      · omega
    · rcases bounds_ok hne hbounds with ⟨hcross, hlt, -⟩ | ⟨-, -, -, hends⟩ | ⟨hlt, hopens, -⟩
      · omega
      · exact hasDate_of (s := end_) (by rw [hends]; unfold day; omega)
      · -- the window of the day is open or over, so the next one is of the day after
        have heq := toMicros_eq local_
        unfold nextStart at hnext
        rw [if_neg (by rw [toMicros_lt_iff]; dsimp only; omega)] at hnext
        have hnext := shift_ok.mp hnext
        exact hasDate_of (s := start) (by rw [hnext, hopens]; unfold day; omega)
  · rintro ⟨local_, hlocal, hbefore, hlate⟩
    refine ⟨local_, shift_ok.mpr (by rw [hlocal, hfixed.1]), ?_⟩
    have heq := toMicros_eq local_
    have hafter : (combine local_.date start).toMicros + day =
        (local_.date.toordinal + 1) * day + start.toMicros := by
      rw [toMicros_combine]
      unfold day
      omega
    unfold bounds
    simp only [combine_lt_iff, before_combine_iff]
    by_cases hcross : end_.toMicros < start.toMicros
    · rw [if_pos hcross]
      by_cases hx : local_.toMicros % day < end_.toMicros
      · have hday : (combine local_.date start).toMicros + -day =
            (local_.date.toordinal - 1) * day + start.toMicros := by
          rw [toMicros_combine]
          unfold day
          omega
        obtain ⟨opens, hopens⟩ := exists_shift (hbefore ⟨hcross, hx⟩) hday
        refine ⟨(opens, combine local_.date end_), by rw [if_pos hx, hopens]; rfl, ?_⟩
        -- the next window is the one of the day
        rw [← shift_ok.mp hopens] at hday
        have hnext : opens.toMicros + day = local_.date.toordinal * day + start.toMicros := by
          unfold day at *
          omega
        exact (exists_nextStart fun _ => exists_shift ⟨local_.date, rfl⟩ hnext).imp
          fun next hnext => ⟨hnext, _, rfl⟩
      · have hday : (combine local_.date end_).toMicros + day =
            (local_.date.toordinal + 1) * day + end_.toMicros := by
          rw [toMicros_combine]
          unfold day
          omega
        obtain ⟨ends, hends⟩ := exists_shift (hlate (.inr ⟨hcross, by omega⟩)) hday
        refine ⟨(combine local_.date start, ends), by rw [if_neg hx, hends]; rfl, ?_⟩
        exact (exists_nextStart fun _ => exists_shift (hlate (.inr ⟨hcross, by omega⟩)) hafter).imp
          fun next hnext => ⟨hnext, _, rfl⟩
    · rw [if_neg hcross]
      refine ⟨(combine local_.date start, combine local_.date end_), rfl, ?_⟩
      refine (exists_nextStart fun hle => exists_shift (hlate (.inl ?_)) hafter).imp
        fun next hnext => ⟨hnext, _, rfl⟩
      rw [toMicros_le_iff, toMicros_combine] at hle
      omega

end

/-! ## Accepted policies -/

section
variable {lib : Clock} {policy : Json}

theorem validatePolicy_ok (h : validatePolicy lib policy = .ok ()) :
    ∃ zone start end_, zoneOf lib policy = .ok zone ∧ timeOf lib policy "start" = .ok (start, false) ∧
      timeOf lib policy "end" = .ok (end_, false) ∧ start.toMicros ≠ end_.toMicros := by
  cases policy with
  | obj fields =>
    obtain ⟨_, -, h⟩ := ok_bind h
    obtain ⟨zone, hzone, h⟩ := ok_bind h
    obtain ⟨⟨start, zoned⟩, hstart, h⟩ := ok_bind h
    obtain ⟨⟨end_, zoned'⟩, hend, h⟩ := ok_bind h
    obtain ⟨_, hwindow, -⟩ := ok_bind h
    rw [ensure_ok, Bool.not_eq_true', Bool.or_eq_false_iff, Bool.or_eq_false_iff] at hwindow
    obtain ⟨⟨rfl, rfl⟩, hne⟩ := hwindow
    exact ⟨zone, start, end_, hzone, hstart, hend, ne_of_beq_false hne⟩
  | null => cases h
  | bool b => cases h
  | int n => cases h
  | str s => cases h
  | arr xs => cases h

theorem validatePolicies_ok {fields : List (String × Json)}
    (h : validatePolicies lib (.obj fields) = .ok ()) : ∀ f ∈ fields, validatePolicy lib f.2 = .ok () := by
  change (fields.forM fun f => validatePolicy lib f.2) = .ok () at h
  induction fields with
  | nil => exact fun f hf => absurd hf List.not_mem_nil
  | cons f fields ih =>
    simp only [List.forM_eq_forM, List.forM_cons] at h
    obtain ⟨_, hf, h⟩ := ok_bind h
    exact List.forall_mem_cons.mpr ⟨hf, ih h⟩

end

/-- The window of an accepted policy in a zone of one offset: where the wall clocks around an
instant have dates, the report is the one of the cyclic interval, and both sides make it. -/
theorem window_cyclic (lib : Clock) {fields : List (String × Json)}
    (haccepted : validatePolicies lib (.obj fields) = .ok ()) {provider : String} {policy : Json}
    (hpolicy : (provider, policy) ∈ fields) {offset : Int}
    (hfixed : ∀ zone, zoneOf lib policy = .ok zone → zone.Fixed offset) :
    ∃ start end_ : TimeOfDay, timeOf lib policy "start" = .ok (start, false) ∧
      timeOf lib policy "end" = .ok (end_, false) ∧ ∀ now : UtcTime,
        ((∃ r, window lib (some policy) now = .ok r) ↔
          Reaches start.toMicros end_.toMicros offset now) ∧
        (∀ r, window lib (some policy) now = .ok r →
          Answers start.toMicros end_.toMicros offset now.toMicros r) ∧
        ∀ catalog utcNow name, catalogPolicy catalog name = .ok (some policy) →
          dailyWindow lib catalog utcNow name (some now) = window lib (some policy) now := by
  obtain ⟨zone, start, end_, hzone, hstart, hend, hne⟩ :=
    validatePolicy_ok (validatePolicies_ok haccepted _ hpolicy)
  refine ⟨start, end_, hstart, hend, fun now => ?_⟩
  have hwindow : window lib (some policy) now = report zone start end_ now := by
    unfold window
    simp only [hzone, hstart, hend]
    rfl
  refine ⟨?_, fun r hr => ?_, fun catalog utcNow name hname => ?_⟩
  · rw [hwindow]
    exact report_isOk_iff hne (hfixed zone hzone)
  · rw [hwindow] at hr
    exact report_answers hne (hfixed zone hzone) hr
  · unfold dailyWindow
    rw [hname]
    rfl

/-! ## The policy of the catalog -/

def taipei : Clock where
  zoneInfo key := if key = "Asia/Taipei" then some ⟨fun _ => 28800000000, fun _ => 28800000000⟩ else none
  time text := if text = "18:00" then some (⟨64800, 0, by decide⟩, false)
    else if text = "06:00" then some (⟨21600, 0, by decide⟩, false) else none

def nightly : Json :=
  .obj [("end", .str "06:00"), ("max_members", .int 25), ("max_seconds", .int 60),
    ("start", .str "18:00"), ("timezone", .str "Asia/Taipei")]

theorem window_cyclic_nightly : ∃ start end_ : TimeOfDay,
    timeOf taipei nightly "start" = .ok (start, false) ∧
    timeOf taipei nightly "end" = .ok (end_, false) ∧
    ∀ r, window taipei (some nightly) ⟨⟨2026, 1, 2, by decide⟩, 43200, 0, by decide⟩ = .ok r →
      Answers start.toMicros end_.toMicros 28800000000
        (UtcTime.toMicros ⟨⟨2026, 1, 2, by decide⟩, 43200, 0, by decide⟩) r := by
  obtain ⟨start, end_, hstart, hend, h⟩ := @window_cyclic taipei [("shioaji", nightly)] rfl "shioaji"
    nightly (List.mem_singleton_self _) 28800000000 fun zone hzone => by
      cases hzone
      exact ⟨fun _ => rfl, fun _ => rfl⟩
  exact ⟨start, end_, hstart, hend, (h ⟨⟨2026, 1, 2, by decide⟩, 43200, 0, by decide⟩).2.1⟩

/-- At noon in UTC of the last day the window is open, and its end has no date. -/
theorem window_last_day :
    validatePolicies taipei (.obj [("shioaji", nightly)]) = .ok () ∧
    InWindow 64800000000 21600000000 (timeOfDay 28800000000
      (UtcTime.toMicros ⟨⟨9999, 12, 31, by decide⟩, 43200, 0, by decide⟩)) ∧
    window taipei (some nightly) ⟨⟨9999, 12, 31, by decide⟩, 43200, 0, by decide⟩ =
      .error "date value out of range" := by
  refine ⟨rfl, ?_, by decide +kernel⟩
  unfold InWindow
  decide

end FinDB.Fetcher.DailyWindow
