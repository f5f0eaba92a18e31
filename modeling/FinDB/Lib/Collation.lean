import FinDB.Lib.Civil
import Mathlib.Data.List.Induction
import Mathlib.Data.String.Basic

/-! # Texts compared character by character

Fields of fixed width, the most significant first, compare as their numbers. A part
that is only written when it is not zero does not. -/
namespace FinDB.Lib

/-! ## Fields -/

theorem append_lt_append_iff {xs ys rest rest' : List Char} (h : xs.length = ys.length) :
    xs ++ rest < ys ++ rest' ↔ xs < ys ∨ xs = ys ∧ rest < rest' := by
  induction xs generalizing ys with
  | nil =>
    cases ys with
    | nil => simp
    | cons y ys => cases h
  | cons x xs ih =>
    cases ys with
    | nil => cases h
    | cons y ys =>
      have hlen : xs.length = ys.length := Nat.succ.inj h
      simp only [List.cons_append, List.cons_lt_cons_iff, ih hlen, List.cons.injEq]
      grind

theorem digitChar_lt_iff {d e : Nat} (hd : d < 10) (he : e < 10) :
    d.digitChar < e.digitChar ↔ d < e := by
  have hall : ∀ d < 10, ∀ e < 10, (Nat.digitChar d < Nat.digitChar e ↔ d < e) := by decide
  exact hall d hd e he

theorem digitChar_inj {d e : Nat} (hd : d < 10) (he : e < 10) :
    d.digitChar = e.digitChar ↔ d = e := by
  have hall : ∀ d < 10, ∀ e < 10, (Nat.digitChar d = Nat.digitChar e ↔ d = e) := by decide
  exact hall d hd e he

theorem numeral_inj {width n m : Nat} (hn : n < 10 ^ width) (hm : m < 10 ^ width) :
    numeral 10 width n = numeral 10 width m ↔ n = m := by
  refine ⟨fun h => ?_, fun h => h ▸ rfl⟩
  have hread := @readDigits_numeral 10 (by decide) (by decide) width n 0 hn
  rw [h, readDigits_numeral (by decide) (by decide) width m 0 hm] at hread
  have := Option.some.inj hread
  omega

theorem numeral_lt_iff {width n m : Nat} (hn : n < 10 ^ width) (hm : m < 10 ^ width) :
    numeral 10 width n < numeral 10 width m ↔ n < m := by
  induction width generalizing n m with
  | zero =>
    rw [Nat.pow_zero] at hn hm
    simp [numeral]
    omega
  | succ width ih =>
    have hn' : n / 10 < 10 ^ width := by rw [Nat.pow_succ] at hn; omega
    have hm' : m / 10 < 10 ^ width := by rw [Nat.pow_succ] at hm; omega
    have hlast : [Nat.digitChar (n % 10)] < [Nat.digitChar (m % 10)] ↔ n % 10 < m % 10 := by
      rw [List.cons_lt_cons_iff, digitChar_lt_iff (Nat.mod_lt n (by decide)) (Nat.mod_lt m (by decide))]
      simp
    rw [numeral, numeral, append_lt_append_iff (by simp), ih hn' hm', numeral_inj hn' hm', hlast]
    omega

/-- The high digits, then the low ones. -/
theorem numeral_append (high low n : Nat) :
    numeral 10 high (n / 10 ^ low) ++ numeral 10 low n = numeral 10 (high + low) n := by
  induction low generalizing n with
  | zero => simp [numeral]
  | succ low ih =>
    rw [← Nat.add_assoc, numeral, numeral, ← List.append_assoc, ← ih (n / 10), Nat.div_div_eq_div_mul,
      Nat.pow_succ, Nat.mul_comm]

/-- Only the lowest digits are written. -/
theorem numeral_add_mul (width n k : Nat) : numeral 10 width (n + 10 ^ width * k) = numeral 10 width n := by
  induction width generalizing n k with
  | zero => rfl
  | succ width ih =>
    have hdiv : (n + 10 ^ (width + 1) * k) / 10 = n / 10 + 10 ^ width * k := by
      rw [Nat.pow_succ, Nat.mul_right_comm, Nat.add_mul_div_right _ _ (by decide)]
    have hmod : (n + 10 ^ (width + 1) * k) % 10 = n % 10 := by
      rw [Nat.pow_succ, Nat.mul_right_comm, Nat.add_mul_mod_self_right]
    rw [numeral, numeral, hdiv, hmod, ih]

theorem digitChar_of_digitVal {c : Char} {d : Nat} (h : digitVal c = some d) (hd : d < 10) :
    c = d.digitChar := by
  unfold digitVal at h
  split_ifs at h with h0 ha hA
  · have hc : '0'.toNat ≤ c.toNat ∧ c.toNat ≤ '9'.toNat := ⟨h0.1, h0.2⟩
    have hval : c.toNat - '0'.toNat = d := Option.some.inj h
    have hall : ∀ d < 10, Char.ofNat ('0'.toNat + d) = Nat.digitChar d := by decide
    have hn : '0'.toNat + d = c.toNat := by omega
    rw [← hall d hd, hn, Char.ofNat_toNat]
  · have := Option.some.inj h
    omega
  · have := Option.some.inj h
    omega

/-- Digits are the numeral of the number they are read as. -/
theorem numeral_of_readDigits {cs : List Char} {n : Nat} (h : readDigits 10 cs 0 = some n) :
    cs = numeral 10 cs.length n ∧ n < 10 ^ cs.length := by
  induction cs using List.reverseRecOn generalizing n with
  | nil =>
    cases h
    exact ⟨rfl, by decide⟩
  | append_singleton cs c ih =>
    rw [readDigits_append, Option.bind_eq_some_iff] at h
    obtain ⟨k, hk, h⟩ := h
    obtain ⟨hcs, hlt⟩ := ih hk
    have hstep : readDigit 10 k c = some n := by simpa [readDigits] using h
    unfold readDigit at hstep
    obtain ⟨d, hval, hd⟩ := Option.bind_eq_some_iff.mp hstep
    split at hd
    · rename_i hd10
      have hn : 10 * k + d = n := Option.some.inj hd
      rw [List.length_append, List.length_singleton, numeral]
      have hdiv : n / 10 = k := by omega
      have hmod : n % 10 = d := by omega
      rw [hdiv, hmod, ← hcs, digitChar_of_digitVal hval hd10, Nat.pow_succ]
      exact ⟨rfl, by omega⟩
    · cases hd

/-- A number in front, then the rest. -/
theorem field_lt_iff {width n m : Nat} (hn : n < 10 ^ width) (hm : m < 10 ^ width)
    {rest rest' : List Char} :
    numeral 10 width n ++ rest < numeral 10 width m ++ rest' ↔ n < m ∨ n = m ∧ rest < rest' := by
  rw [append_lt_append_iff (by simp), numeral_lt_iff hn hm, numeral_inj hn hm]

theorem sep_lt_iff {c : Char} {rest rest' : List Char} : c :: rest < c :: rest' ↔ rest < rest' := by
  simp

/-! ## Dates -/

theorem CivilDate.isoChars_lt_iff {a b : CivilDate} {rest rest' : List Char} :
    a.isoChars ++ rest < b.isoChars ++ rest' ↔ a < b ∨ a = b ∧ rest < rest' := by
  have hda := a.day_le
  have hdb := b.day_le
  obtain ⟨⟨_, hya⟩, ⟨_, hma⟩, _⟩ := a.valid
  obtain ⟨⟨_, hyb⟩, ⟨_, hmb⟩, _⟩ := b.valid
  unfold CivilDate.isoChars
  simp only [List.append_assoc, List.cons_append]
  rw [field_lt_iff (by omega) (by omega), sep_lt_iff, field_lt_iff (by omega) (by omega),
    sep_lt_iff, field_lt_iff (by omega) (by omega), CivilDate.lt_iff,
    ← CivilDate.ordinal_injective.eq_iff]
  unfold CivilDate.ordinal
  by_cases hrest : rest < rest' <;> simp only [hrest, and_true, and_false, or_false] <;> omega

/-! ## Times -/

namespace UtcTime

/-- The text down to the seconds. -/
def stem (t : UtcTime) : List Char :=
  t.date.isoChars ++ 'T' :: (numeral 10 2 (t.seconds / 3600) ++ ':' ::
    (numeral 10 2 (t.seconds / 60 % 60) ++ ':' :: numeral 10 2 (t.seconds % 60)))

theorem isoChars_eq (t : UtcTime) :
    t.isoChars = t.stem ++ (fraction t.micros ++ ['+', '0', '0', ':', '0', '0']) := by
  simp [isoChars, stem]

theorem toSeconds_lt_iff {t u : UtcTime} : t.toSeconds < u.toSeconds ↔
    t.date < u.date ∨ t.date = u.date ∧ t.seconds < u.seconds := by
  have ht := t.valid.1
  have hu := u.valid.1
  rw [← CivilDate.toordinal_lt_iff, ← CivilDate.toordinal_injective.eq_iff]
  unfold toSeconds
  omega

theorem toSeconds_inj {t u : UtcTime} :
    t.toSeconds = u.toSeconds ↔ t.date = u.date ∧ t.seconds = u.seconds := by
  have ht := t.valid.1
  have hu := u.valid.1
  rw [← CivilDate.toordinal_injective.eq_iff]
  unfold toSeconds
  omega

/-- Down to the seconds, texts compare as times. -/
theorem stem_lt_iff {t u : UtcTime} {rest rest' : List Char} :
    t.stem ++ rest < u.stem ++ rest' ↔
      t.toSeconds < u.toSeconds ∨ t.toSeconds = u.toSeconds ∧ rest < rest' := by
  have ht := t.valid.1
  have hu := u.valid.1
  unfold stem
  simp only [List.append_assoc, List.cons_append]
  rw [CivilDate.isoChars_lt_iff, sep_lt_iff, field_lt_iff (by omega) (by omega), sep_lt_iff,
    field_lt_iff (by omega) (by omega), sep_lt_iff, field_lt_iff (by omega) (by omega),
    toSeconds_lt_iff, toSeconds_inj]
  by_cases hdate : t.date = u.date <;> by_cases hrest : rest < rest' <;>
    simp only [hdate, hrest, lt_irrefl, and_true, and_false, true_and, false_and, or_false, false_or] <;>
    omega

/-- A fraction comes before the zone, and `.` before `Z`. -/
theorem fraction_lt_iff {m n : Nat} (hm : m < 1000000) (hn : n < 1000000) :
    fraction m ++ ['Z'] < fraction n ++ ['Z'] ↔ m ≠ 0 ∧ (n = 0 ∨ m < n) := by
  unfold fraction
  by_cases h0 : m = 0
  · simp only [h0, if_true, ne_eq, not_true_eq_false, false_and, iff_false]
    split
    · exact lt_irrefl _
    · rw [List.cons_append, List.nil_append, List.cons_lt_cons_iff]
      exact fun h => h.elim (by decide) fun h => absurd h.1 (by decide)
  · rw [if_neg h0]
    split
    · rename_i hn0
      simp only [List.cons_append, List.nil_append, List.cons_lt_cons_iff]
      exact iff_of_true (Or.inl (by decide)) ⟨h0, Or.inl hn0⟩
    · rename_i hn0
      rw [List.cons_append, List.cons_append, sep_lt_iff, field_lt_iff hm hn]
      simp [h0, hn0]

/-- The text of a time in UTC, with `Z` for its zone. -/
def zChars (t : UtcTime) : List Char := t.stem ++ (fraction t.micros ++ ['Z'])

theorem zChars_lt_iff {t u : UtcTime} : t.zChars < u.zChars ↔ t.toSeconds < u.toSeconds ∨
    t.toSeconds = u.toSeconds ∧ t.micros ≠ 0 ∧ (u.micros = 0 ∨ t.micros < u.micros) := by
  unfold zChars
  rw [stem_lt_iff, fraction_lt_iff t.valid.2 u.valid.2]

/-- Two times in one second, of which one is a whole second. -/
def Straddles (x y : Int) : Prop :=
  x / 1000000 = y / 1000000 ∧ ((x % 1000000 = 0) ↔ ¬ y % 1000000 = 0)

instance (x y : Int) : Decidable (Straddles x y) := inferInstanceAs (Decidable (_ ∧ _))

/-- Only there the order of the texts is not the order of the times. -/
theorem zChars_le_iff (t u : UtcTime) :
    (t.zChars ≤ u.zChars ↔ t.toMicros ≤ u.toMicros) ↔ ¬ Straddles t.toMicros u.toMicros := by
  rw [← not_lt, zChars_lt_iff]
  unfold Straddles
  rw [t.toMicros_div, u.toMicros_div, t.toMicros_mod, u.toMicros_mod]
  have ht := t.valid.2
  have hu := u.valid.2
  unfold toMicros
  omega

end UtcTime
end FinDB.Lib
