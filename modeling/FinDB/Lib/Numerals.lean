import Mathlib.Data.Nat.Basic
import Mathlib.Tactic.Ring

/-! # Numerals of fixed width

The text of a number with a given count of digits in a base up to sixteen, and
its reading. Readers take digits of either case and name where they stop. -/
namespace FinDB.Lib

/-- The value of a digit. -/
def digitVal (c : Char) : Option Nat :=
  if '0' ≤ c ∧ c ≤ '9' then some (c.toNat - '0'.toNat)
  else if 'a' ≤ c ∧ c ≤ 'f' then some (c.toNat - 'a'.toNat + 10)
  else if 'A' ≤ c ∧ c ≤ 'F' then some (c.toNat - 'A'.toNat + 10)
  else none

theorem digitVal_digitChar {d : Nat} (h : d < 16) : digitVal d.digitChar = some d := by
  have hall : ∀ d < 16, digitVal (Nat.digitChar d) = some d := by decide
  exact hall d h

/-- The lowest `width` digits, highest first. -/
def numeral (base : Nat) : Nat → Nat → List Char
  | 0, _ => []
  | width + 1, n => numeral base width (n / base) ++ [Nat.digitChar (n % base)]

@[simp] theorem length_numeral (base width n : Nat) : (numeral base width n).length = width := by
  induction width generalizing n with
  | zero => rfl
  | succ width ih => simp [numeral, ih]

/-- One more digit of a number that is being read. -/
def readDigit (base : Nat) (n : Nat) (c : Char) : Option Nat :=
  (digitVal c).bind fun d => if d < base then some (base * n + d) else none

/-- The number some digits are the text of. -/
def readDigits (base : Nat) (cs : List Char) (n : Nat) : Option Nat := cs.foldlM (readDigit base) n

theorem readDigits_append (base : Nat) (cs ds : List Char) (n : Nat) :
    readDigits base (cs ++ ds) n = (readDigits base cs n).bind (readDigits base ds) := by
  unfold readDigits
  rw [List.foldlM_append]
  rfl

theorem readDigit_digitChar {base d : Nat} (hb : base ≤ 16) (hd : d < base) (n : Nat) :
    readDigit base n d.digitChar = some (base * n + d) := by
  unfold readDigit
  rw [digitVal_digitChar (lt_of_lt_of_le hd hb), Option.bind_some, if_pos hd]

theorem readDigits_numeral {base : Nat} (h0 : 0 < base) (hb : base ≤ 16) (width : Nat) :
    ∀ n k, n < base ^ width → readDigits base (numeral base width n) k =
      some (base ^ width * k + n) := by
  induction width with
  | zero =>
    intro n k h
    have hn : n = 0 := by simpa using h
    simp [numeral, readDigits, hn]
  | succ width ih =>
    intro n k h
    have hq : n / base < base ^ width := by
      rw [Nat.div_lt_iff_lt_mul h0]
      rwa [Nat.pow_succ] at h
    have hone : ∀ m, readDigits base [Nat.digitChar (n % base)] m =
        some (base * m + n % base) := by
      intro m
      have hstep := readDigit_digitChar hb (Nat.mod_lt n h0) m
      simp [readDigits, hstep]
    rw [numeral, readDigits_append, ih (n / base) k hq, Option.bind_some, hone]
    congr 1
    have hdiv := Nat.div_add_mod n base
    calc base * (base ^ width * k + n / base) + n % base
        = base ^ (width + 1) * k + (base * (n / base) + n % base) := by ring
      _ = base ^ (width + 1) * k + n := by rw [hdiv]

/-- A field of exactly `width` digits, and what follows it. -/
def readNumeral (base width : Nat) (cs : List Char) : Option (Nat × List Char) :=
  if width ≤ cs.length then
    (readDigits base (cs.take width) 0).map fun n => (n, cs.drop width)
  else none

theorem readNumeral_numeral {base : Nat} (h0 : 0 < base) (hb : base ≤ 16) {width n : Nat}
    (h : n < base ^ width) (rest : List Char) :
    readNumeral base width (numeral base width n ++ rest) = some (n, rest) := by
  have hread := readDigits_numeral h0 hb width n 0 h
  have htake : (numeral base width n ++ rest).take width = numeral base width n := by
    rw [List.take_append_of_le_length (by simp), List.take_of_length_le (by simp)]
  have hdrop : (numeral base width n ++ rest).drop width = rest := by
    rw [List.drop_append_of_le_length (by simp), List.drop_of_length_le (by simp), List.nil_append]
  unfold readNumeral
  rw [if_pos (by simp), htake, hread, hdrop]
  simp

/-- A digit is no character that a text would escape or a field end with. -/
theorem mem_numeral {base : Nat} (h0 : 0 < base) {width n : Nat} {c : Char}
    (h : c ∈ numeral base width n) : ∃ d < base, c = d.digitChar := by
  induction width generalizing n with
  | zero => cases h
  | succ width ih =>
    rcases List.mem_append.mp h with h | h
    · exact ih h
    · exact ⟨n % base, Nat.mod_lt n h0, List.mem_singleton.mp h⟩

end FinDB.Lib
