import FinDB.Lib.Collation
import FinDB.Lib.Raise

/-! # The scheduler's timestamps

Timestamps are stored as text in UTC and compared as text by SQLite. -/
namespace FinDB.Scheduler
open FinDB.Lib

inductive Err where
  | state (message : String)
  | schedule (message : String)
  /-- `OverflowError`: outside the years `1 .. 9999`. -/
  | overflow
deriving DecidableEq, Repr

/-! ## Aware times -/

/-- `datetime.tzinfo`: the offset, in microseconds, of a wall time and its fold. -/
structure TzInfo where
  utcoffset : UtcTime → Bool → Option Int
  bound : ∀ wall fold offset, utcoffset wall fold = some offset →
    -86400000000 < offset ∧ offset < 86400000000

/-- `datetime.datetime`: the wall time is kept as its fields. -/
structure Datetime where
  wall : UtcTime
  fold : Bool
  tzinfo : Option TzInfo

def Datetime.utcoffset (value : Datetime) : Option Int :=
  value.tzinfo.bind fun tz => tz.utcoffset value.wall value.fold

/-- The instant an aware time names, in microseconds. -/
def Datetime.instant (value : Datetime) : Int := value.wall.toMicros - value.utcoffset.getD 0

/-- `value.astimezone(timezone.utc)`. -/
def Datetime.astimezone (value : Datetime) : Except Err UtcTime :=
  need (UtcTime.ofMicros value.instant) .overflow

/-- `value + timedelta(seconds=seconds)` moves the wall time. -/
def Datetime.addSeconds (value : Datetime) (seconds : Nat) : Except Err Datetime := do
  let wall ← need (UtcTime.ofMicros (value.wall.toMicros + seconds * 1000000)) .overflow
  return { value with wall, fold := false }

/-- `timezone.utc`. -/
def utc : TzInfo := ⟨fun _ _ => some 0, by rintro _ _ _ ⟨⟩; decide⟩

/-! ## Their texts -/

/-- `text.replace("+00:00", "Z")`. -/
def replaceZone : List Char → List Char
  | '+' :: '0' :: '0' :: ':' :: '0' :: '0' :: cs => 'Z' :: replaceZone cs
  | c :: cs => c :: replaceZone cs
  | [] => []

/-- `_datetime_text`. -/
def datetimeText (value : Datetime) : Except Err String := do
  ensure value.utcoffset.isSome (.state "scheduler timestamps must be timezone-aware")
  let utc ← value.astimezone
  return String.ofList (replaceZone utc.isoChars)

theorem replaceZone_cons {c : Char} (h : c ≠ '+') (cs : List Char) :
    replaceZone (c :: cs) = c :: replaceZone cs := by
  rw [replaceZone]
  rintro _ rfl
  exact absurd rfl h

theorem replaceZone_append {xs cs : List Char} (h : '+' ∉ xs) :
    replaceZone (xs ++ cs) = xs ++ replaceZone cs := by
  induction xs with
  | nil => rfl
  | cons x xs ih =>
    have hx : x ≠ '+' := fun he => h (he ▸ List.mem_cons_self)
    rw [List.cons_append, replaceZone_cons hx, ih fun hin => h (List.mem_cons_of_mem x hin)]
    rfl

theorem plus_notMem_numeral (width n : Nat) : '+' ∉ numeral 10 width n := by
  intro h
  obtain ⟨d, hd, he⟩ := mem_numeral (by decide) h
  have hall : ∀ d < 10, '+' ≠ Nat.digitChar d := by decide
  exact hall d hd he

/-- Only the zone is replaced. -/
theorem replaceZone_isoChars (t : UtcTime) : replaceZone t.isoChars = t.zChars := by
  have hnum := plus_notMem_numeral
  have hstem : '+' ∉ t.stem := by
    simp [UtcTime.stem, CivilDate.isoChars, hnum]
  have hfraction : '+' ∉ UtcTime.fraction t.micros := by
    unfold UtcTime.fraction
    split <;> simp [hnum]
  rw [t.isoChars_eq, replaceZone_append hstem, replaceZone_append hfraction]
  rfl

theorem datetimeText_ok {value : Datetime} {text : String} (h : datetimeText value = .ok text) :
    ∃ t : UtcTime, t.toMicros = value.instant ∧ text = String.ofList t.zChars := by
  obtain ⟨_, _, h⟩ := ok_bind h
  obtain ⟨t, ht, h⟩ := ok_bind h
  cases h
  exact ⟨t, UtcTime.ofMicros_eq_some.mp (need_ok.mp ht), by rw [replaceZone_isoChars]⟩

/-- The texts of two times compare as the times, unless one of them is a whole second and the
other is not and both are in it. -/
theorem datetimeText_le_iff {a b : Datetime} {text text' : String} (ha : datetimeText a = .ok text)
    (hb : datetimeText b = .ok text') :
    (text ≤ text' ↔ a.instant ≤ b.instant) ↔ ¬ UtcTime.Straddles a.instant b.instant := by
  obtain ⟨t, hat, rfl⟩ := datetimeText_ok ha
  obtain ⟨u, hbu, rfl⟩ := datetimeText_ok hb
  rw [← hat, ← hbu, String.le_iff_toList_le, String.toList_ofList, String.toList_ofList]
  exact t.zChars_le_iff u

end FinDB.Scheduler
