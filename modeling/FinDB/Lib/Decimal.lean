import Mathlib.Data.List.TakeDrop
import Mathlib.Algebra.Order.Field.Rat
import Mathlib.Tactic.NormNum

/-! # Decimal numbers as text

A decimal keeps its coefficient and its exponent: `1.50` and `1.5` are different
decimals of one value. The text is the to-scientific-string of the General Decimal
Arithmetic specification; the reader takes any plain or scientific notation. Special
values have no place here. -/
namespace FinDB.Lib

/-- A finite `decimal.Decimal`. -/
structure Dec where
  negative : Bool
  coefficient : Nat
  exponent : Int
deriving DecidableEq, Repr

namespace Dec

def value (d : Dec) : ℚ :=
  (if d.negative then -(d.coefficient : ℚ) else d.coefficient) * (10 : ℚ) ^ d.exponent

theorem value_nonneg {d : Dec} (h : d.negative = false) : 0 ≤ d.value := by
  unfold value
  rw [h, if_neg (by decide)]
  exact mul_nonneg (Nat.cast_nonneg _) (zpow_nonneg (by norm_num) _)

/-- `Decimal(n)`. -/
def ofInt (n : Int) : Dec := ⟨decide (n < 0), n.natAbs, 0⟩

/-! ## Comparison -/

/-- Decimals compare by value. -/
instance : Preorder Dec := Preorder.lift value

instance : DecidableLE Dec := fun a b => inferInstanceAs (Decidable (a.value ≤ b.value))

instance : DecidableLT Dec := fun a b => inferInstanceAs (Decidable (a.value < b.value))

theorem not_lt {a b : Dec} : ¬ a < b ↔ b ≤ a := @Rat.not_lt a.value b.value

/-- `max(a, b)`: the first of equals. -/
def max (a b : Dec) : Dec := if a < b then b else a

/-- `min(a, b)`: the first of equals. -/
def min (a b : Dec) : Dec := if b < a then b else a

theorem max_le_iff {a b c : Dec} : a.max b ≤ c ↔ a ≤ c ∧ b ≤ c := by
  unfold max
  split
  · rename_i h
    exact ⟨fun hb => ⟨h.le.trans hb, hb⟩, And.right⟩
  · rename_i h
    exact ⟨fun ha => ⟨ha, (not_lt.mp h).trans ha⟩, And.left⟩

theorem le_min_iff {a b c : Dec} : c ≤ a.min b ↔ c ≤ a ∧ c ≤ b := by
  unfold min
  split
  · rename_i h
    exact ⟨fun hb => ⟨hb.trans h.le, hb⟩, And.right⟩
  · rename_i h
    exact ⟨fun ha => ⟨ha, ha.trans (not_lt.mp h)⟩, And.left⟩

theorem foldl_max_le_iff {a c : Dec} {xs : List Dec} :
    xs.foldl max a ≤ c ↔ a ≤ c ∧ ∀ x ∈ xs, x ≤ c := by
  induction xs generalizing a with
  | nil => simp
  | cons x xs ih => rw [List.foldl_cons, ih, max_le_iff, List.forall_mem_cons, and_assoc]

theorem le_foldl_min_iff {a c : Dec} {xs : List Dec} :
    c ≤ xs.foldl min a ↔ c ≤ a ∧ ∀ x ∈ xs, c ≤ x := by
  induction xs generalizing a with
  | nil => simp
  | cons x xs ih => rw [List.foldl_cons, ih, le_min_iff, List.forall_mem_cons, and_assoc]

/-! ## The text -/

/-- Integer part, fraction and printed exponent. -/
def layout (d : Dec) : List Char × List Char × Int :=
  let digits := Nat.toDigits 10 d.coefficient
  let leftdigits : Int := d.exponent + digits.length
  let dotplace : Int := if d.exponent ≤ 0 ∧ -6 < leftdigits then leftdigits else 1
  if dotplace ≤ 0 then
    (['0'], List.replicate (-dotplace).toNat '0' ++ digits, leftdigits - dotplace)
  else if digits.length ≤ dotplace then
    (digits ++ List.replicate (dotplace - digits.length).toNat '0', [], leftdigits - dotplace)
  else (digits.take dotplace.toNat, digits.drop dotplace.toNat, leftdigits - dotplace)

/-- `"%+d" % n`. -/
def signed (n : Int) : List Char :=
  if n < 0 then '-' :: Nat.toDigits 10 n.natAbs else '+' :: Nat.toDigits 10 n.natAbs

def exponentChars (n : Int) : List Char := if n = 0 then [] else 'E' :: signed n

def pointChars (frac : List Char) : List Char := if frac = [] then [] else '.' :: frac

def chars (d : Dec) : List Char :=
  let (int, frac, exp) := d.layout
  (if d.negative then ['-'] else []) ++ (int ++ (pointChars frac ++ exponentChars exp))

/-- `str(value)`. -/
def text (d : Dec) : String := String.ofList d.chars

/-! ## The reader -/

def readSign : List Char → Bool × List Char
  | '-' :: cs => (true, cs)
  | '+' :: cs => (false, cs)
  | cs => (false, cs)

/-- Digits up to the end of the text. -/
def readNumber (cs : List Char) : Option Nat :=
  if cs ≠ [] ∧ cs.all (·.isDigit) then some (Nat.ofDigitChars 10 cs 0) else none

def readExponent : List Char → Option Int
  | [] => some 0
  | c :: cs =>
    if c = 'E' ∨ c = 'e' then
      let (negative, cs) := readSign cs
      (readNumber cs).map fun (n : Nat) => if negative then -(n : Int) else n
    else none

/-- The digits behind a point, if there is one. -/
def readFraction : List Char → List Char × List Char
  | '.' :: cs => cs.span (·.isDigit)
  | cs => ([], cs)

def read (cs : List Char) : Option Dec :=
  let (negative, cs) := readSign cs
  let (int, cs) := cs.span (·.isDigit)
  let (frac, cs) := readFraction cs
  if int ++ frac = [] then none
  else (readExponent cs).map fun e =>
    ⟨negative, Nat.ofDigitChars 10 (int ++ frac) 0, e - frac.length⟩

/-- `Decimal(text)`. -/
def ofText (text : String) : Option Dec := read text.toList

/-! ## The round trip -/

/-- Digits only. -/
def Digits (cs : List Char) : Prop := ∀ c ∈ cs, c.isDigit = true

theorem digits_toDigits (n : Nat) : Digits (Nat.toDigits 10 n) :=
  fun _ hc => Nat.isDigit_of_mem_toDigits (by decide) (by decide) hc

theorem digits_zeros (n : Nat) : Digits (List.replicate n '0') := by
  intro c hc
  rw [List.eq_of_mem_replicate hc]
  rfl

theorem Digits.append {cs ds : List Char} (hc : Digits cs) (hd : Digits ds) : Digits (cs ++ ds) :=
  fun c h => (List.mem_append.mp h).elim (hc c) (hd c)

/-- Digits are taken up to where none follows. -/
theorem span_digits {cs rest : List Char} (h : Digits cs)
    (hrest : ∀ c ∈ rest.head?, c.isDigit = false) :
    (cs ++ rest).span (·.isDigit) = (cs, rest) := by
  have hstop : rest.takeWhile (·.isDigit) = [] ∧ rest.dropWhile (·.isDigit) = rest := by
    cases rest with
    | nil => exact ⟨rfl, rfl⟩
    | cons c rest =>
      have hc := hrest c rfl
      simp [hc]
  rw [List.span_eq_takeWhile_dropWhile, List.takeWhile_append_of_pos h,
    List.dropWhile_append_of_pos h, hstop.1, hstop.2, List.append_nil]

theorem readNumber_toDigits (n : Nat) : readNumber (Nat.toDigits 10 n) = some n := by
  unfold readNumber
  rw [if_pos ⟨Nat.toDigits_ne_nil, List.all_eq_true.mpr (digits_toDigits n)⟩,
    Nat.ofDigitChars_ten_toDigits]

theorem readExponent_chars (n : Int) : readExponent (exponentChars n) = some n := by
  unfold exponentChars signed
  split
  · rename_i h0
    rw [h0]
    rfl
  · split
    · simp only [readExponent, true_or, if_true, readSign, readNumber_toDigits, Option.map_some]
      congr 1
      omega
    · simp only [readExponent, true_or, if_true, readSign, readNumber_toDigits, Option.map_some]
      simp only [Bool.false_eq_true, if_false]
      congr 1
      omega

theorem head?_exponentChars (n : Int) :
    exponentChars n = [] ∨ (exponentChars n).head? = some 'E' := by
  unfold exponentChars
  split
  · exact Or.inl rfl
  · exact Or.inr rfl

/-- What follows the integer part is no digit. -/
theorem head?_tail {frac : List Char} {n : Int} :
    ∀ c ∈ (pointChars frac ++ exponentChars n).head?, c.isDigit = false := by
  intro c hc
  unfold pointChars at hc
  split at hc
  · rcases head?_exponentChars n with h | h
    · rw [h] at hc
      cases hc
    · rw [List.nil_append, h] at hc
      cases hc
      rfl
  · cases hc
    rfl

theorem readFraction_chars {frac : List Char} (h : Digits frac) (n : Int) :
    readFraction (pointChars frac ++ exponentChars n) = (frac, exponentChars n) := by
  have hstop : ∀ c ∈ (exponentChars n).head?, c.isDigit = false := by
    have h := @head?_tail [] n
    exact h
  unfold pointChars
  split
  · rename_i h0
    rw [h0, List.nil_append]
    rcases head?_exponentChars n with he | he
    · rw [he]
      rfl
    · unfold readFraction
      split
      · rename_i hc
        rw [hc] at he
        cases he
      · rfl
  · exact span_digits h hstop

/-- The digits that are printed are the coefficient, and those behind the point make up
for the exponent. -/
theorem layout_spec (d : Dec) :
    Digits d.layout.1 ∧ Digits d.layout.2.1 ∧ d.layout.1 ≠ [] ∧
    Nat.ofDigitChars 10 (d.layout.1 ++ d.layout.2.1) 0 = d.coefficient ∧
    d.layout.2.2 - d.layout.2.1.length = d.exponent := by
  have hdigits := digits_toDigits d.coefficient
  have hpos : 0 < (Nat.toDigits 10 d.coefficient).length := Nat.length_toDigits_pos
  have hback : Nat.ofDigitChars 10 (Nat.toDigits 10 d.coefficient) 0 = d.coefficient :=
    Nat.ofDigitChars_ten_toDigits
  unfold layout
  generalize hds : Nat.toDigits 10 d.coefficient = ds at hdigits hpos hback
  generalize hdot : (if d.exponent ≤ 0 ∧ -6 < d.exponent + (ds.length : Int)
    then d.exponent + (ds.length : Int) else 1) = dotplace
  have hcase : dotplace = d.exponent + (ds.length : Int) ∧ d.exponent ≤ 0 ∨ dotplace = 1 := by
    split at hdot
    · rename_i h
      exact Or.inl ⟨hdot.symm, h.1⟩
    · exact Or.inr hdot.symm
  simp only [hdot]
  split
  · rename_i hle
    refine ⟨fun c hc => by rw [List.mem_singleton.mp hc]; rfl, (digits_zeros _).append hdigits,
      by simp, ?_, ?_⟩
    · have hzeros : ['0'] ++ (List.replicate (-dotplace).toNat '0' ++ ds) =
          List.replicate ((-dotplace).toNat + 1) '0' ++ ds := by
        rw [List.replicate_succ]
        rfl
      simp only [hzeros]
      rw [Nat.ofDigitChars_append, Nat.ofDigitChars_replicate_zero, Nat.mul_zero, hback]
    · simp only [List.length_append, List.length_replicate]
      omega
  · split
    · -- the point stands behind the last digit, so no zero is added
      rename_i hle hlen
      have hzero : (dotplace - (ds.length : Int)).toNat = 0 := by omega
      simp only [hzero, List.replicate_zero, List.append_nil]
      refine ⟨hdigits, (fun c hc => by cases hc), List.length_pos_iff.mp hpos, hback, ?_⟩
      simp only [List.length_nil]
      omega
    · rename_i hle hlen
      refine ⟨fun c hc => hdigits c (List.mem_of_mem_take hc),
        fun c hc => hdigits c (List.mem_of_mem_drop hc), ?_, ?_, ?_⟩
      · refine List.length_pos_iff.mp ?_
        simp only [List.length_take]
        omega
      · simp only [List.take_append_drop]
        exact hback
      · simp only [List.length_drop]
        omega

theorem isDigit_ne {c : Char} (h : c.isDigit = true) : c ≠ '-' ∧ c ≠ '+' := by
  constructor <;>
  · rintro rfl
    cases h

theorem readSign_chars (negative : Bool) {cs : List Char} (h : ∀ c ∈ cs.head?, c.isDigit = true) :
    readSign ((if negative then ['-'] else []) ++ cs) = (negative, cs) := by
  cases negative with
  | true => rfl
  | false =>
    rw [if_neg (by decide), List.nil_append]
    unfold readSign
    split
    · exact absurd rfl (isDigit_ne (h '-' rfl)).1
    · exact absurd rfl (isDigit_ne (h '+' rfl)).2
    · rfl

theorem read_chars (d : Dec) : read d.chars = some d := by
  obtain ⟨hint, hfrac, hne, hcoeff, hexp⟩ := d.layout_spec
  have hhead : ∀ c ∈ (d.layout.1 ++ (pointChars d.layout.2.1 ++ exponentChars d.layout.2.2)).head?,
      c.isDigit = true := by
    intro c hc
    obtain ⟨d', ds, hds⟩ := List.exists_cons_of_ne_nil hne
    rw [hds] at hc hint
    cases hc
    exact hint _ List.mem_cons_self
  have hfilled : d.layout.1 ++ d.layout.2.1 ≠ [] := by simp [hne]
  unfold read chars
  simp only [readSign_chars d.negative hhead, span_digits hint head?_tail,
    readFraction_chars hfrac, readExponent_chars, Option.map_some, if_neg hfilled, hcoeff, hexp]

/-- **Round trip.** -/
@[simp] theorem ofText_text (d : Dec) : ofText d.text = some d := by
  unfold ofText text
  rw [String.toList_ofList]
  exact d.read_chars

example : (Dec.mk true 150 (-2)).text = "-1.50" ∧ (Dec.mk false 12 5).text = "1.2E+6" := by decide

/-! ## Fixed point -/

/-- Integer part and fraction without an exponent. -/
def fixedLayout (d : Dec) : List Char × List Char :=
  let digits := Nat.toDigits 10 d.coefficient
  let leftdigits : Int := d.exponent + digits.length
  if d.coefficient = 0 ∧ 0 < d.exponent then (['0'], [])
  else if leftdigits ≤ 0 then (['0'], List.replicate (-leftdigits).toNat '0' ++ digits)
  else if digits.length ≤ leftdigits then
    (digits ++ List.replicate (leftdigits - digits.length).toNat '0', [])
  else (digits.take leftdigits.toNat, digits.drop leftdigits.toNat)

/-- `format(value, "f")`. -/
def fixedChars (d : Dec) : List Char :=
  (if d.negative then ['-'] else []) ++ (d.fixedLayout.1 ++ pointChars d.fixedLayout.2)

/-- The decimal that the fixed-point text writes. -/
def fixed (d : Dec) : Dec :=
  if 0 < d.exponent then ⟨d.negative, d.coefficient * 10 ^ d.exponent.toNat, 0⟩ else d

theorem value_fixed (d : Dec) : d.fixed.value = d.value := by
  unfold fixed
  split
  · rename_i h
    have hexp : ((d.exponent.toNat : Nat) : Int) = d.exponent := Int.toNat_of_nonneg h.le
    have hpow : (10 : ℚ) ^ d.exponent = (10 : ℚ) ^ d.exponent.toNat := by
      rw [← hexp, zpow_natCast]
      rfl
    unfold value
    rw [hpow]
    cases d.negative <;> simp
  · rfl

theorem fixed_le_fixed {a b : Dec} : a.fixed ≤ b.fixed ↔ a ≤ b := by
  change a.fixed.value ≤ b.fixed.value ↔ a.value ≤ b.value
  rw [value_fixed, value_fixed]

theorem fixedLayout_spec (d : Dec) :
    Digits d.fixedLayout.1 ∧ Digits d.fixedLayout.2 ∧ d.fixedLayout.1 ≠ [] ∧
    Nat.ofDigitChars 10 (d.fixedLayout.1 ++ d.fixedLayout.2) 0 = d.fixed.coefficient ∧
    -(d.fixedLayout.2.length : Int) = d.fixed.exponent := by
  have hdigits := digits_toDigits d.coefficient
  have hpos : 0 < (Nat.toDigits 10 d.coefficient).length := Nat.length_toDigits_pos
  have hback : Nat.ofDigitChars 10 (Nat.toDigits 10 d.coefficient) 0 = d.coefficient :=
    Nat.ofDigitChars_ten_toDigits
  have hzero : Digits ['0'] := fun c hc => by
    rw [List.mem_singleton.mp hc]
    rfl
  unfold fixedLayout fixed
  generalize Nat.toDigits 10 d.coefficient = ds at hdigits hpos hback
  simp only
  split
  · rename_i h
    rw [if_pos h.2, h.1]
    refine ⟨hzero, (fun c hc => by cases hc), by simp, ?_, rfl⟩
    rw [Nat.zero_mul]
    rfl
  · split
    · rename_i hleft
      have hexp : ¬ 0 < d.exponent := by omega
      rw [if_neg hexp]
      refine ⟨hzero, (digits_zeros _).append hdigits, by simp, ?_, ?_⟩
      · have hzeros : ['0'] ++ (List.replicate (-(d.exponent + (ds.length : Int))).toNat '0' ++ ds) =
            List.replicate ((-(d.exponent + (ds.length : Int))).toNat + 1) '0' ++ ds := by
          rw [List.replicate_succ]
          rfl
        rw [hzeros, Nat.ofDigitChars_append, Nat.ofDigitChars_replicate_zero, Nat.mul_zero, hback]
      · simp only [List.length_append, List.length_replicate]
        omega
    · split
      · rename_i hleft hlen
        have hcount : (d.exponent + (ds.length : Int) - ds.length).toNat = d.exponent.toNat := by
          omega
        rw [hcount, List.append_nil]
        refine ⟨hdigits.append (digits_zeros _), (fun c hc => by cases hc), by
          simp [List.length_pos_iff.mp hpos], ?_, ?_⟩
        · rw [Nat.ofDigitChars_append, Nat.ofDigitChars_replicate_zero, hback]
          split
          · exact Nat.mul_comm _ _
          · have hexp : d.exponent.toNat = 0 := by omega
            rw [hexp, Nat.pow_zero, Nat.one_mul]
        · split
          · rfl
          · simp only [List.length_nil]
            omega
      · rename_i hleft hlen
        have hexp : ¬ 0 < d.exponent := by omega
        rw [if_neg hexp]
        refine ⟨fun c hc => hdigits c (List.mem_of_mem_take hc),
          fun c hc => hdigits c (List.mem_of_mem_drop hc), ?_, ?_, ?_⟩
        · refine List.length_pos_iff.mp ?_
          simp only [List.length_take]
          omega
        · rw [List.take_append_drop, hback]
        · simp only [List.length_drop]
          omega

theorem readFraction_point {frac : List Char} (h : Digits frac) :
    readFraction (pointChars frac) = (frac, []) := by
  have hread := readFraction_chars h 0
  simpa [exponentChars] using hread

/-- The fixed-point text is read with the same value. -/
theorem read_fixedChars (d : Dec) : read d.fixedChars = some d.fixed := by
  obtain ⟨hint, hfrac, hne, hcoeff, hexp⟩ := d.fixedLayout_spec
  have hhead : ∀ c ∈ (d.fixedLayout.1 ++ pointChars d.fixedLayout.2).head?, c.isDigit = true := by
    intro c hc
    obtain ⟨d', ds, hds⟩ := List.exists_cons_of_ne_nil hne
    rw [hds] at hc hint
    cases hc
    exact hint _ List.mem_cons_self
  have htail : ∀ c ∈ (pointChars d.fixedLayout.2).head?, c.isDigit = false := by
    intro c hc
    exact @head?_tail d.fixedLayout.2 0 c (by simpa [exponentChars] using hc)
  have hfilled : d.fixedLayout.1 ++ d.fixedLayout.2 ≠ [] := by simp [hne]
  have hsign : d.fixed.negative = d.negative := by
    unfold fixed
    split <;> rfl
  unfold read fixedChars
  simp only [readSign_chars d.negative hhead, span_digits hint htail, readFraction_point hfrac,
    if_neg hfilled, readExponent, Option.map_some, hcoeff, zero_sub, hexp]
  rw [← hsign]

/-- Signs, points and digits only. -/
def plainChar (c : Char) : Bool := c.isDigit || c == '-' || c == '+' || c == '.'

theorem Digits.plain {cs : List Char} (h : Digits cs) : cs.all plainChar = true := by
  refine List.all_eq_true.mpr fun c hc => ?_
  unfold plainChar
  rw [h c hc]
  rfl

theorem plain_sign (negative : Bool) :
    (if negative then ['-'] else []).all plainChar = true := by
  cases negative <;> rfl

theorem plain_pointChars {frac : List Char} (h : Digits frac) :
    (pointChars frac).all plainChar = true := by
  unfold pointChars
  split
  · rfl
  · rw [List.all_cons, h.plain]
    rfl

theorem plain_fixedChars (d : Dec) : d.fixedChars.all plainChar = true := by
  obtain ⟨hint, hfrac, _⟩ := d.fixedLayout_spec
  unfold fixedChars
  rw [List.all_append, List.all_append, plain_sign, hint.plain, plain_pointChars hfrac]
  rfl

/-! ## Texts without an exponent -/

/-- The text has no exponent. -/
def isPlain (d : Dec) : Bool :=
  decide (d.exponent ≤ 0) && decide (-6 < d.exponent + ((Nat.toDigits 10 d.coefficient).length : Int))

theorem layout_exponent (d : Dec) : d.layout.2.2 =
    d.exponent + (Nat.toDigits 10 d.coefficient).length -
      (if d.exponent ≤ 0 ∧ -6 < d.exponent + ((Nat.toDigits 10 d.coefficient).length : Int) then
        d.exponent + (Nat.toDigits 10 d.coefficient).length else 1) := by
  unfold layout
  simp only
  generalize (if d.exponent ≤ 0 ∧ -6 < d.exponent + ((Nat.toDigits 10 d.coefficient).length : Int) then
    d.exponent + ((Nat.toDigits 10 d.coefficient).length : Int) else 1) = dotplace
  split
  · rfl
  · split <;> rfl

theorem layout_exponent_eq_zero {d : Dec} : d.layout.2.2 = 0 ↔ d.isPlain = true := by
  have hpos : 0 < (Nat.toDigits 10 d.coefficient).length := Nat.length_toDigits_pos
  unfold isPlain
  rw [layout_exponent, Bool.and_eq_true, decide_eq_true_iff, decide_eq_true_iff]
  split <;> omega

theorem plain_chars {d : Dec} (h : d.isPlain = true) : d.chars.all plainChar = true := by
  obtain ⟨hint, hfrac, _⟩ := d.layout_spec
  have hexp : exponentChars d.layout.2.2 = [] := by
    unfold exponentChars
    rw [if_pos (layout_exponent_eq_zero.mpr h)]
  unfold chars
  simp only [List.all_append, plain_sign, hint.plain, plain_pointChars hfrac, hexp, List.all_nil,
    Bool.and_true]

/-- An optional sign and digits with an optional point, at least one of them a digit:
`^(?!^[-+.]*$)[+-]?0*\d*\.?\d*$`. -/
def matchesDecimal (cs : List Char) : Bool :=
  cs.any (fun c => !(c == '-' || c == '+' || c == '.')) &&
    (readFraction ((readSign cs).2.span (·.isDigit)).2).2.isEmpty

/-- The text of a decimal matches just when it has no exponent. -/
theorem matchesDecimal_chars (d : Dec) : matchesDecimal d.chars = true ↔ d.isPlain = true := by
  obtain ⟨hint, hfrac, hne, _⟩ := d.layout_spec
  obtain ⟨c, cs, hcs⟩ := List.exists_cons_of_ne_nil hne
  have hc : c.isDigit = true := hint c (by rw [hcs]; exact List.mem_cons_self)
  have hhead : ∀ c ∈ (d.layout.1 ++ (pointChars d.layout.2.1 ++ exponentChars d.layout.2.2)).head?,
      c.isDigit = true := by
    intro c' hc'
    rw [hcs] at hc'
    cases hc'
    exact hc
  have hany : d.chars.any (fun c => !(c == '-' || c == '+' || c == '.')) = true := by
    refine List.any_eq_true.mpr ⟨c, ?_, ?_⟩
    · unfold chars
      simp [hcs]
    · obtain ⟨hminus, hplus⟩ := isDigit_ne hc
      have hdot : c ≠ '.' := by
        rintro rfl
        cases hc
      simp [hminus, hplus, hdot]
  unfold matchesDecimal
  rw [hany, Bool.true_and, ← layout_exponent_eq_zero]
  unfold chars
  simp only [readSign_chars d.negative hhead, span_digits hint head?_tail, readFraction_chars hfrac]
  unfold exponentChars signed
  split
  · rename_i h0
    simp [h0]
  · rename_i h0
    simp [h0]

example : (Dec.mk false 12 2).fixedChars = "1200".toList ∧ (Dec.mk true 5 (-3)).fixedChars = "-0.005".toList := by
  decide

end Dec
end FinDB.Lib
