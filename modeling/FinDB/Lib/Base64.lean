import Mathlib.Data.List.Basic
import Mathlib.Tactic.Linarith

/-! # Base64 with the URL alphabet

Three bytes are four letters; the two or one bytes left over are three or two
letters, and the padding that would fill them up to four is not written. -/
namespace FinDB.Lib

/-- The letter of six bits. -/
def sextetChar (n : Nat) : Char :=
  if n < 26 then Char.ofNat ('A'.toNat + n)
  else if n < 52 then Char.ofNat ('a'.toNat + (n - 26))
  else if n < 62 then Char.ofNat ('0'.toNat + (n - 52))
  else if n = 62 then '-'
  else '_'

def sextetVal (c : Char) : Option Nat :=
  if 'A' ≤ c ∧ c ≤ 'Z' then some (c.toNat - 'A'.toNat)
  else if 'a' ≤ c ∧ c ≤ 'z' then some (c.toNat - 'a'.toNat + 26)
  else if '0' ≤ c ∧ c ≤ '9' then some (c.toNat - '0'.toNat + 52)
  else if c = '-' then some 62
  else if c = '_' then some 63
  else none

theorem sextetVal_char {n : Nat} (h : n < 64) : sextetVal (sextetChar n) = some n := by
  have hall : ∀ n < 64, sextetVal (sextetChar n) = some n := by decide
  exact hall n h

/-- `urlsafe_b64encode(raw).rstrip("=")`. -/
def base64Encode : List UInt8 → List Char
  | [] => []
  | [a] => [sextetChar (a.toNat / 4), sextetChar (a.toNat % 4 * 16)]
  | [a, b] => [sextetChar (a.toNat / 4), sextetChar (a.toNat % 4 * 16 + b.toNat / 16),
      sextetChar (b.toNat % 16 * 4)]
  | a :: b :: c :: rest =>
    sextetChar (a.toNat / 4) :: sextetChar (a.toNat % 4 * 16 + b.toNat / 16) ::
      sextetChar (b.toNat % 16 * 4 + c.toNat / 64) :: sextetChar (c.toNat % 64) ::
        base64Encode rest

/-- `b64decode` of the text with its padding put back: a single letter over is refused. -/
def base64Decode : List Char → Option (List UInt8)
  | [] => some []
  | [_] => none
  | [w, x] => do
    let w ← sextetVal w
    let x ← sextetVal x
    return [UInt8.ofNat (w * 4 + x / 16)]
  | [w, x, y] => do
    let w ← sextetVal w
    let x ← sextetVal x
    let y ← sextetVal y
    return [UInt8.ofNat (w * 4 + x / 16), UInt8.ofNat (x % 16 * 16 + y / 4)]
  | w :: x :: y :: z :: rest => do
    let w ← sextetVal w
    let x ← sextetVal x
    let y ← sextetVal y
    let z ← sextetVal z
    let rest ← base64Decode rest
    return UInt8.ofNat (w * 4 + x / 16) :: UInt8.ofNat (x % 16 * 16 + y / 4) ::
      UInt8.ofNat (y % 4 * 64 + z) :: rest

theorem byte_eq {b : UInt8} {n : Nat} (h : n = b.toNat) : UInt8.ofNat n = b := by
  rw [h, UInt8.ofNat_toNat]

theorem base64Decode_encode (bs : List UInt8) : base64Decode (base64Encode bs) = some bs := by
  induction bs using base64Encode.induct with
  | case1 => rfl
  | case2 a =>
    have ha := a.toNat_lt
    simp only [base64Encode, base64Decode, sextetVal_char (show a.toNat / 4 < 64 by omega),
      sextetVal_char (show a.toNat % 4 * 16 < 64 by omega), Option.pure_def, Option.bind_eq_bind,
      Option.bind_some]
    rw [byte_eq (b := a) (by omega)]
  | case3 a b =>
    have ha := a.toNat_lt
    have hb := b.toNat_lt
    simp only [base64Encode, base64Decode, sextetVal_char (show a.toNat / 4 < 64 by omega),
      sextetVal_char (show a.toNat % 4 * 16 + b.toNat / 16 < 64 by omega),
      sextetVal_char (show b.toNat % 16 * 4 < 64 by omega), Option.pure_def, Option.bind_eq_bind,
      Option.bind_some]
    rw [byte_eq (b := a) (by omega), byte_eq (b := b) (by omega)]
  | case4 a b c rest ih =>
    have ha := a.toNat_lt
    have hb := b.toNat_lt
    have hc := c.toNat_lt
    simp only [base64Encode, base64Decode, sextetVal_char (show a.toNat / 4 < 64 by omega),
      sextetVal_char (show a.toNat % 4 * 16 + b.toNat / 16 < 64 by omega),
      sextetVal_char (show b.toNat % 16 * 4 + c.toNat / 64 < 64 by omega),
      sextetVal_char (show c.toNat % 64 < 64 by omega), ih, Option.pure_def, Option.bind_eq_bind,
      Option.bind_some]
    rw [byte_eq (b := a) (by omega), byte_eq (b := b) (by omega), byte_eq (b := c) (by omega)]

theorem length_base64Encode (bs : List UInt8) :
    3 * (base64Encode bs).length ≤ 4 * bs.length + 2 ∧ 4 * bs.length ≤ 3 * (base64Encode bs).length := by
  induction bs using base64Encode.induct with
  | case1 => simp [base64Encode]
  | case2 => simp [base64Encode]
  | case3 => simp [base64Encode]
  | case4 a b c rest ih =>
    simp only [base64Encode, List.length_cons]
    omega

/-- Every letter is one of the alphabet. -/
theorem sextetVal_of_mem {bs : List UInt8} {c : Char} (h : c ∈ base64Encode bs) :
    (sextetVal c).isSome = true := by
  have hchar : ∀ n < 64, (sextetVal (sextetChar n)).isSome = true := fun n hn => by
    rw [sextetVal_char hn]
    rfl
  induction bs using base64Encode.induct with
  | case1 => cases h
  | case2 a =>
    have ha := a.toNat_lt
    simp only [base64Encode, List.mem_cons, List.not_mem_nil, or_false] at h
    rcases h with rfl | rfl <;> exact hchar _ (by omega)
  | case3 a b =>
    have ha := a.toNat_lt
    have hb := b.toNat_lt
    simp only [base64Encode, List.mem_cons, List.not_mem_nil, or_false] at h
    rcases h with rfl | rfl | rfl <;> exact hchar _ (by omega)
  | case4 a b d rest ih =>
    have ha := a.toNat_lt
    have hb := b.toNat_lt
    have hd := d.toNat_lt
    simp only [base64Encode, List.mem_cons] at h
    rcases h with rfl | rfl | rfl | rfl | h
    · exact hchar _ (by omega)
    · exact hchar _ (by omega)
    · exact hchar _ (by omega)
    · exact hchar _ (by omega)
    · exact ih h

/-! ## The standard alphabet -/

/-- The letter of the standard alphabet for one of the URL alphabet. -/
def standardChar (c : Char) : Char := if c = '-' then '+' else if c = '_' then '/' else c

/-- The letter of the URL alphabet for one of the standard alphabet. -/
def urlChar (c : Char) : Option Char :=
  if c = '-' ∨ c = '_' then none
  else if c = '+' then some '-'
  else if c = '/' then some '_'
  else some c

/-- What fills `n` letters up to fours. -/
def base64Padding (n : Nat) : List Char := List.replicate ((4 - n % 4) % 4) '='

/-- `base64.b64encode(raw)`. -/
def b64encode (raw : List UInt8) : List Char :=
  (base64Encode raw).map standardChar ++ base64Padding (base64Encode raw).length

/-- `base64.b64decode(text, validate=True)`. -/
def b64decode (text : List Char) : Option (List UInt8) :=
  let letters := text.takeWhile (· != '=')
  if text.dropWhile (· != '=') = base64Padding letters.length then
    (letters.mapM urlChar).bind base64Decode
  else none

theorem standardChar_spec {c : Char} (h : (sextetVal c).isSome = true) :
    urlChar (standardChar c) = some c ∧ standardChar c ≠ '=' := by
  have hplus : c ≠ '+' := by rintro rfl; cases h
  have hslash : c ≠ '/' := by rintro rfl; cases h
  have hpad : c ≠ '=' := by rintro rfl; cases h
  unfold standardChar
  split_ifs with hminus hunder
  · subst hminus
    decide
  · subst hunder
    decide
  · simp [urlChar, *]

theorem mapM_urlChar {cs : List Char} (h : ∀ c ∈ cs, (sextetVal c).isSome = true) :
    (cs.map standardChar).mapM urlChar = some cs := by
  induction cs with
  | nil => rfl
  | cons c cs ih =>
    rw [List.map_cons, List.mapM_cons, (standardChar_spec (h c List.mem_cons_self)).1,
      ih fun d hd => h d (List.mem_cons_of_mem _ hd)]
    rfl

/-- Letters up to the padding. -/
theorem split_padding {letters : List Char} (h : ∀ c ∈ letters, c ≠ '=') (n : Nat) :
    (letters ++ base64Padding n).takeWhile (· != '=') = letters ∧
      (letters ++ base64Padding n).dropWhile (· != '=') = base64Padding n := by
  have hall : ∀ c ∈ letters, (c != '=') = true := fun c hc => bne_iff_ne.mpr (h c hc)
  have hpad : (base64Padding n).takeWhile (· != '=') = [] ∧
      (base64Padding n).dropWhile (· != '=') = base64Padding n := by
    unfold base64Padding
    cases (4 - n % 4) % 4 <;> exact ⟨rfl, rfl⟩
  rw [List.takeWhile_append_of_pos hall, List.dropWhile_append_of_pos hall, hpad.1, hpad.2,
    List.append_nil]
  exact ⟨rfl, rfl⟩

theorem b64decode_of_split {text letters : List Char}
    (htake : text.takeWhile (· != '=') = letters)
    (hdrop : text.dropWhile (· != '=') = base64Padding letters.length) :
    b64decode text = (letters.mapM urlChar).bind base64Decode := by
  subst htake
  exact if_pos hdrop

theorem b64decode_encode (raw : List UInt8) : b64decode (b64encode raw) = some raw := by
  have hletters : ∀ c ∈ base64Encode raw, (sextetVal c).isSome = true :=
    fun _ hc => sextetVal_of_mem hc
  have hne : ∀ c ∈ (base64Encode raw).map standardChar, c ≠ '=' := by
    intro c hc
    obtain ⟨d, hd, rfl⟩ := List.mem_map.mp hc
    exact (standardChar_spec (hletters d hd)).2
  obtain ⟨htake, hdrop⟩ := split_padding hne (base64Encode raw).length
  rw [b64encode, b64decode_of_split htake (by rw [hdrop, List.length_map]), mapM_urlChar hletters,
    Option.bind_some, base64Decode_encode]

end FinDB.Lib
