import Mathlib.Order.Basic
import Mathlib.Order.Lattice
import Mathlib.Tactic.NormNum
import FinDB.Lib.Gregorian
import FinDB.Lib.Numerals

/-! # Calendar dates, times of day and ids as text

Values carry the bounds of their fields, so each has one text and every text that
is read names a value. Readers take the form the writers use; a time may come
without its offset, and then has no zone. -/
namespace FinDB.Lib

/-! ## Fields -/

/-- One separator. -/
def readSep (sep : Char) : List Char → Option (List Char)
  | c :: cs => if c = sep then some cs else none
  | [] => none

@[simp] theorem readSep_cons (sep : Char) (cs : List Char) : readSep sep (sep :: cs) = some cs :=
  if_pos rfl

/-! ## Dates -/

/-- `calendar.monthrange(year, month)[1]`. -/
def monthDays (year month : Nat) : Nat :=
  if month = 2 then (if isLeap year then 29 else 28)
  else if month = 4 ∨ month = 6 ∨ month = 9 ∨ month = 11 then 30
  else 31

theorem monthDays_bounds (year month : Nat) : 28 ≤ monthDays year month ∧ monthDays year month ≤ 31 := by
  unfold monthDays
  split_ifs <;> omega

/-- `datetime.date`. -/
structure CivilDate where
  year : Nat
  month : Nat
  day : Nat
  valid : (1 ≤ year ∧ year ≤ 9999) ∧ (1 ≤ month ∧ month ≤ 12) ∧ 1 ≤ day ∧ day ≤ monthDays year month
deriving DecidableEq

namespace CivilDate

/-- A number that orders dates. -/
def ordinal (d : CivilDate) : Nat := (d.year * 13 + d.month) * 32 + d.day

theorem day_le (d : CivilDate) : d.day ≤ 31 :=
  le_trans d.valid.2.2.2 (monthDays_bounds _ _).2

theorem ordinal_injective : Function.Injective ordinal := by
  intro a b h
  have ha := a.day_le
  have hb := b.day_le
  obtain ⟨_, ⟨_, ham⟩, _⟩ := a.valid
  obtain ⟨_, ⟨_, hbm⟩, _⟩ := b.valid
  unfold ordinal at h
  have hday : a.day = b.day := by omega
  have hmonth : a.month = b.month := by omega
  have hyear : a.year = b.year := by omega
  cases a
  cases b
  simp_all

instance : LinearOrder CivilDate := LinearOrder.lift' ordinal ordinal_injective

theorem lt_iff {a b : CivilDate} : a < b ↔ a.ordinal < b.ordinal := Iff.rfl

theorem le_iff {a b : CivilDate} : a ≤ b ↔ a.ordinal ≤ b.ordinal := Iff.rfl

def isoChars (d : CivilDate) : List Char :=
  numeral 10 4 d.year ++ '-' :: (numeral 10 2 d.month ++ '-' :: numeral 10 2 d.day)

/-- `date.isoformat()`. -/
def isoformat (d : CivilDate) : String := String.ofList d.isoChars

/-- A date in front of a text. -/
def read (cs : List Char) : Option (CivilDate × List Char) := do
  let (year, cs) ← readNumeral 10 4 cs
  let cs ← readSep '-' cs
  let (month, cs) ← readNumeral 10 2 cs
  let cs ← readSep '-' cs
  let (day, cs) ← readNumeral 10 2 cs
  if valid : (1 ≤ year ∧ year ≤ 9999) ∧ (1 ≤ month ∧ month ≤ 12) ∧ 1 ≤ day ∧
      day ≤ monthDays year month then
    return (⟨year, month, day, valid⟩, cs)
  else none

/-- `date.fromisoformat(text)`. -/
def fromisoformat (text : String) : Option CivilDate := do
  let (d, rest) ← read text.toList
  if rest.isEmpty then some d else none

theorem read_isoChars (d : CivilDate) (rest : List Char) :
    read (d.isoChars ++ rest) = some (d, rest) := by
  have hday := d.day_le
  obtain ⟨⟨_, hy⟩, ⟨_, hm⟩, _⟩ := d.valid
  have hread : ∀ {width n : Nat} (_ : n < 10 ^ width) (cs : List Char),
      readNumeral 10 width (numeral 10 width n ++ cs) = some (n, cs) := fun h cs =>
    readNumeral_numeral (by decide) (by decide) h cs
  unfold read isoChars
  simp only [List.append_assoc, List.cons_append]
  rw [hread (by omega)]
  simp only [Option.bind_eq_bind, Option.bind_some, readSep_cons]
  rw [hread (by omega)]
  simp only [Option.bind_some, readSep_cons]
  rw [hread (by omega)]
  simp only [Option.bind_some]
  rw [dif_pos d.valid]
  rfl

theorem fromisoformat_isoformat (d : CivilDate) : fromisoformat d.isoformat = some d := by
  have hread := d.read_isoChars []
  rw [List.append_nil] at hread
  unfold fromisoformat isoformat
  rw [String.toList_ofList, hread]
  rfl

@[simp] theorem length_isoChars (d : CivilDate) : d.isoChars.length = 10 := by
  simp [isoChars]

end CivilDate

/-! ## Times in UTC -/

/-- An aware `datetime` as the database returns it. -/
structure UtcTime where
  date : CivilDate
  seconds : Nat
  micros : Nat
  valid : seconds < 86400 ∧ micros < 1000000
deriving DecidableEq

namespace UtcTime

theorem midnight_valid : 0 < 86400 ∧ 0 < 1000000 := by decide

/-- A number that orders times. -/
def ordinal (t : UtcTime) : Nat := (t.date.ordinal * 86400 + t.seconds) * 1000000 + t.micros

theorem ordinal_injective : Function.Injective ordinal := by
  intro a b h
  obtain ⟨has, ham⟩ := a.valid
  obtain ⟨hbs, hbm⟩ := b.valid
  unfold ordinal at h
  have hmicros : a.micros = b.micros := by omega
  have hseconds : a.seconds = b.seconds := by omega
  have hdate : a.date = b.date := CivilDate.ordinal_injective (by omega)
  cases a
  cases b
  simp_all

instance : LinearOrder UtcTime := LinearOrder.lift' ordinal ordinal_injective

/-- The fraction is only written when there is one. -/
def fraction (micros : Nat) : List Char :=
  if micros = 0 then [] else '.' :: numeral 10 6 micros

def isoChars (t : UtcTime) : List Char :=
  t.date.isoChars ++ 'T' :: (numeral 10 2 (t.seconds / 3600) ++ ':' ::
    (numeral 10 2 (t.seconds / 60 % 60) ++ ':' :: (numeral 10 2 (t.seconds % 60) ++
      (fraction t.micros ++ ['+', '0', '0', ':', '0', '0']))))

/-- `datetime.isoformat()` of a time in UTC. -/
def isoformat (t : UtcTime) : String := String.ofList t.isoChars

def readFraction : List Char → Option (Nat × List Char)
  | '.' :: cs => readNumeral 10 6 cs
  | cs => some (0, cs)

/-- The offset of UTC, or none at all. -/
def readOffset : List Char → Option Bool
  | [] => some false
  | cs => if cs = ['+', '0', '0', ':', '0', '0'] then some true else none

/-- `datetime.fromisoformat(text)`, and whether it has a zone. -/
def fromisoformat (text : String) : Option (UtcTime × Bool) := do
  let (date, cs) ← CivilDate.read text.toList
  let cs ← readSep 'T' cs
  let (hour, cs) ← readNumeral 10 2 cs
  let cs ← readSep ':' cs
  let (minute, cs) ← readNumeral 10 2 cs
  let cs ← readSep ':' cs
  let (second, cs) ← readNumeral 10 2 cs
  let (micros, cs) ← readFraction cs
  let aware ← readOffset cs
  if valid : (hour < 24 ∧ minute < 60 ∧ second < 60) ∧ micros < 1000000 then
    return (⟨date, (hour * 60 + minute) * 60 + second, micros, by omega⟩, aware)
  else none

theorem readFraction_fraction {micros : Nat} (h : micros < 1000000) :
    readFraction (fraction micros ++ ['+', '0', '0', ':', '0', '0']) =
      some (micros, ['+', '0', '0', ':', '0', '0']) := by
  unfold fraction
  split
  · rename_i h0
    rw [h0]
    rfl
  · exact readNumeral_numeral (by decide) (by decide) h _

theorem fromisoformat_isoformat (t : UtcTime) : fromisoformat t.isoformat = some (t, true) := by
  obtain ⟨hs, hm⟩ := t.valid
  have hread : ∀ {n : Nat} (_ : n < 10 ^ 2) (cs : List Char),
      readNumeral 10 2 (numeral 10 2 n ++ cs) = some (n, cs) := fun h cs =>
    readNumeral_numeral (by decide) (by decide) h cs
  have hback : (t.seconds / 3600 * 60 + t.seconds / 60 % 60) * 60 + t.seconds % 60 = t.seconds := by
    omega
  unfold fromisoformat isoformat isoChars
  rw [String.toList_ofList, CivilDate.read_isoChars]
  simp only [Option.bind_eq_bind, Option.bind_some, readSep_cons]
  rw [hread (by omega)]
  simp only [Option.bind_some, readSep_cons]
  rw [hread (by omega)]
  simp only [Option.bind_some, readSep_cons]
  rw [hread (by omega)]
  simp only [Option.bind_some]
  rw [readFraction_fraction hm]
  simp only [Option.bind_some, readOffset, if_true]
  rw [dif_pos ⟨⟨by omega, by omega, by omega⟩, hm⟩]
  simp only [hback]
  rfl

theorem length_isoChars_le (t : UtcTime) : t.isoChars.length ≤ 32 := by
  unfold isoChars fraction
  split <;> simp

end UtcTime

/-! ## Ids -/

/-- A 128-bit id. -/
abbrev Uuid128 := Fin (2 ^ 128)

namespace Uuid128

/-- The groups of 8, 4, 4, 4 and 12 digits. -/
def hyphenate (ds : List Char) : List Char :=
  ds.take 8 ++ '-' :: ((ds.drop 8).take 4 ++ '-' :: ((ds.drop 12).take 4 ++ '-' ::
    ((ds.drop 16).take 4 ++ '-' :: ds.drop 20)))

def chars (id : Uuid128) : List Char := hyphenate (numeral 16 32 id)

/-- `str(uuid)`. -/
def text (id : Uuid128) : String := String.ofList id.chars

/-- `UUID(text)`: hyphens do not count. -/
def ofText (text : String) : Option Uuid128 := do
  let (n, rest) ← readNumeral 16 32 (text.toList.filter (· != '-'))
  if rest.isEmpty then (if h : n < 2 ^ 128 then some ⟨n, h⟩ else none) else none

theorem hyphen_not_mem (n : Nat) : '-' ∉ numeral 16 32 n := by
  intro h
  obtain ⟨d, hd, heq⟩ := mem_numeral (by decide) h
  have hall : ∀ d < 16, '-' ≠ Nat.digitChar d := by decide
  exact hall d hd heq

theorem filter_hyphenate {ds : List Char} (h : '-' ∉ ds) :
    (hyphenate ds).filter (· != '-') = ds := by
  have hkeep : ∀ xs : List Char, (∀ c ∈ xs, c ∈ ds) → xs.filter (· != '-') = xs := by
    intro xs hxs
    refine List.filter_eq_self.mpr fun c hc => ?_
    have hne : c ≠ '-' := fun he => h (he ▸ hxs c hc)
    simpa using hne
  unfold hyphenate
  simp only [List.filter_append, List.filter_cons, bne_self_eq_false, Bool.false_eq_true, if_false]
  rw [hkeep _ fun c hc => List.mem_of_mem_take hc,
    hkeep _ fun c hc => List.mem_of_mem_drop (List.mem_of_mem_take hc),
    hkeep _ fun c hc => List.mem_of_mem_drop (List.mem_of_mem_take hc),
    hkeep _ fun c hc => List.mem_of_mem_drop (List.mem_of_mem_take hc),
    hkeep _ fun c hc => List.mem_of_mem_drop hc]
  have hjoin : ∀ a b : Nat, (ds.drop a).take b ++ ds.drop (a + b) = ds.drop a := by
    intro a b
    rw [← List.drop_drop, List.take_append_drop]
  rw [hjoin 16 4, hjoin 12 4, hjoin 8 4, List.take_append_drop]

theorem ofText_text (id : Uuid128) : ofText id.text = some id := by
  have hlt : id.val < 16 ^ 32 := lt_of_lt_of_eq id.isLt (by norm_num)
  have hread := @readNumeral_numeral 16 (by decide) (le_refl _) 32 id.val hlt []
  rw [List.append_nil] at hread
  unfold ofText text chars
  rw [String.toList_ofList, filter_hyphenate (hyphen_not_mem id), hread]
  simp only [Option.bind_eq_bind, Option.bind_some, List.isEmpty_nil, if_true]
  rw [dif_pos id.isLt]

@[simp] theorem length_chars (id : Uuid128) : id.chars.length = 36 := by
  simp [chars, hyphenate]

end Uuid128

end FinDB.Lib
