import Mathlib.Data.List.Induction
import Mathlib.Data.String.Basic
import FinDB.Lib.Numerals

/-! # JSON documents

The compact ASCII text of a document with sorted keys, and the reader of the
grammar. Numbers are integers: a fraction or an exponent is refused. An object
is its fields in key order, so that equal dictionaries are equal values. -/
namespace FinDB.Lib

inductive Json where
  | null
  | bool (b : Bool)
  | int (n : Int)
  | str (s : String)
  | arr (items : List Json)
  | obj (fields : List (String × Json))
deriving Repr

/-! ## Equality -/

mutual

def Json.same : Json → Json → Bool
  | .null, .null => true
  | .bool a, .bool b => a == b
  | .int a, .int b => a == b
  | .str a, .str b => a == b
  | .arr xs, .arr ys => sameItems xs ys
  | .obj fs, .obj gs => sameFields fs gs
  | _, _ => false

def sameItems : List Json → List Json → Bool
  | [], [] => true
  | x :: xs, y :: ys => x.same y && sameItems xs ys
  | _, _ => false

def sameFields : List (String × Json) → List (String × Json) → Bool
  | [], [] => true
  | (k, v) :: fs, (l, w) :: gs => k == l && v.same w && sameFields fs gs
  | _, _ => false

end

mutual

theorem Json.same_iff : ∀ v w : Json, v.same w = true ↔ v = w
  | .null, w => by cases w <;> simp [Json.same]
  | .bool a, w => by cases w <;> simp [Json.same]
  | .int a, w => by cases w <;> simp [Json.same]
  | .str a, w => by cases w <;> simp [Json.same]
  | .arr xs, w => by cases w <;> simp [Json.same, sameItems_iff xs]
  | .obj fs, w => by cases w <;> simp [Json.same, sameFields_iff fs]

theorem sameItems_iff : ∀ xs ys : List Json, sameItems xs ys = true ↔ xs = ys
  | [], ys => by cases ys <;> simp [sameItems]
  | x :: xs, ys => by cases ys <;> simp [sameItems, Json.same_iff x, sameItems_iff xs]

theorem sameFields_iff : ∀ fs gs : List (String × Json), sameFields fs gs = true ↔ fs = gs
  | [], gs => by cases gs <;> simp [sameFields]
  | (k, v) :: fs, gs => by
    cases gs <;> simp [sameFields, Json.same_iff v, sameFields_iff fs, Prod.ext_iff]

end

instance : DecidableEq Json := fun v w => decidable_of_iff _ (Json.same_iff v w)

/-! ## Dictionaries -/

/-- `d[key] = value` on fields in key order. -/
def setField (key : String) (value : Json) : List (String × Json) → List (String × Json)
  | [] => [(key, value)]
  | (k, v) :: fields =>
    if key < k then (key, value) :: (k, v) :: fields
    else if key = k then (key, value) :: fields
    else (k, v) :: setField key value fields

/-- A dictionary from its items: the last one of a key counts. -/
def Json.dict (items : List (String × Json)) : Json :=
  .obj (items.foldl (fun fields item => setField item.1 item.2 fields) [])

/-- `d.get(key)`. -/
def getField (key : String) (fields : List (String × Json)) : Option Json :=
  (fields.find? fun f => f.1 == key).map (·.2)

/-! ## Writing -/

/-- One character of a string literal: anything outside printable ASCII is escaped. -/
def escapeChar (c : Char) : List Char :=
  if c = '"' then ['\\', '"']
  else if c = '\\' then ['\\', '\\']
  else if c.toNat = 8 then ['\\', 'b']
  else if c.toNat = 9 then ['\\', 't']
  else if c.toNat = 10 then ['\\', 'n']
  else if c.toNat = 12 then ['\\', 'f']
  else if c.toNat = 13 then ['\\', 'r']
  else if 32 ≤ c.toNat ∧ c.toNat < 127 then [c]
  else if c.toNat < 65536 then '\\' :: 'u' :: numeral 16 4 c.toNat
  else '\\' :: 'u' :: (numeral 16 4 (55296 + (c.toNat - 65536) / 1024) ++
    '\\' :: 'u' :: numeral 16 4 (56320 + (c.toNat - 65536) % 1024))

def writeString (s : String) : List Char := '"' :: (s.toList.flatMap escapeChar ++ ['"'])

def writeInt : Int → List Char
  | .ofNat n => Nat.toDigits 10 n
  | .negSucc n => '-' :: Nat.toDigits 10 (n + 1)

mutual

/-- `json.dumps(value, sort_keys=True, separators=(",", ":"))`. -/
def Json.dumps : Json → List Char
  | .null => ['n', 'u', 'l', 'l']
  | .bool true => ['t', 'r', 'u', 'e']
  | .bool false => ['f', 'a', 'l', 's', 'e']
  | .int n => writeInt n
  | .str s => writeString s
  | .arr [] => ['[', ']']
  | .arr (x :: xs) => '[' :: (x.dumps ++ (dumpsItems xs ++ [']']))
  | .obj [] => ['{', '}']
  | .obj ((k, v) :: fs) => '{' :: (writeString k ++ ':' :: (v.dumps ++ (dumpsFields fs ++ ['}'])))

/-- The items after the first. -/
def dumpsItems : List Json → List Char
  | [] => []
  | x :: xs => ',' :: (x.dumps ++ dumpsItems xs)

/-- The fields after the first. -/
def dumpsFields : List (String × Json) → List Char
  | [] => []
  | (k, v) :: fs => ',' :: (writeString k ++ ':' :: (v.dumps ++ dumpsFields fs))

end

/-! ## Reading -/

def isSpace (c : Char) : Bool := c == ' ' || c == '\t' || c == '\n' || c == '\r'

def skip (cs : List Char) : List Char := cs.dropWhile isSpace

/-- The character behind `\u`, or both halves of a surrogate pair. -/
def readUnicode (cs : List Char) : Option (Char × List Char) := do
  let (high, cs) ← readNumeral 16 4 cs
  if 55296 ≤ high ∧ high < 56320 then
    match cs with
    | '\\' :: 'u' :: cs => do
      let (low, cs) ← readNumeral 16 4 cs
      if 56320 ≤ low ∧ low < 57344 then
        return (Char.ofNat (65536 + (high - 55296) * 1024 + (low - 56320)), cs)
      else none
    | _ => none
  else if 56320 ≤ high ∧ high < 57344 then none
  else return (Char.ofNat high, cs)

/-- One character of a string literal. -/
def readChar : List Char → Option (Char × List Char)
  | '\\' :: '"' :: cs => some ('"', cs)
  | '\\' :: '\\' :: cs => some ('\\', cs)
  | '\\' :: '/' :: cs => some ('/', cs)
  | '\\' :: 'b' :: cs => some (Char.ofNat 8, cs)
  | '\\' :: 't' :: cs => some (Char.ofNat 9, cs)
  | '\\' :: 'n' :: cs => some (Char.ofNat 10, cs)
  | '\\' :: 'f' :: cs => some (Char.ofNat 12, cs)
  | '\\' :: 'r' :: cs => some (Char.ofNat 13, cs)
  | '\\' :: 'u' :: cs => readUnicode cs
  | '\\' :: _ => none
  | c :: cs => if c.toNat < 32 then none else some (c, cs)
  | [] => none

/-- The rest of a string literal. -/
def readString : Nat → List Char → Option (List Char × List Char)
  | 0, _ => none
  | _ + 1, '"' :: cs => some ([], cs)
  | fuel + 1, cs => do
    let (c, cs) ← readChar cs
    let (s, cs) ← readString fuel cs
    return (c :: s, cs)

/-- A whole string literal behind its opening quote. -/
def readLiteral (cs : List Char) : Option (String × List Char) :=
  (readString (cs.length + 1) cs).map fun p => (String.ofList p.1, p.2)

/-- The digits of an integer; a leading zero stands alone. -/
def readNat (cs : List Char) : Option (Nat × List Char) :=
  match cs with
  | '0' :: cs => some (0, cs)
  | cs =>
    let digits := cs.takeWhile (·.isDigit)
    if digits.isEmpty then none else some (Nat.ofDigitChars 10 digits 0, cs.drop digits.length)

def readInt : List Char → Option (Int × List Char)
  | '-' :: cs => (readNat cs).map fun p => (-(p.1 : Int), p.2)
  | cs => (readNat cs).map fun p => ((p.1 : Int), p.2)

mutual

def readValue : Nat → List Char → Option (Json × List Char)
  | 0, _ => none
  | fuel + 1, cs =>
    match cs with
    | '"' :: cs => (readLiteral cs).map fun p => (.str p.1, p.2)
    | '[' :: cs =>
      match skip cs with
      | ']' :: cs => some (.arr [], cs)
      | cs => (readItems fuel cs).map fun p => (.arr p.1, p.2)
    | '{' :: cs =>
      match skip cs with
      | '}' :: cs => some (.obj [], cs)
      | cs => (readFields fuel cs).map fun p => (.dict p.1, p.2)
    | 'n' :: 'u' :: 'l' :: 'l' :: cs => some (.null, cs)
    | 't' :: 'r' :: 'u' :: 'e' :: cs => some (.bool true, cs)
    | 'f' :: 'a' :: 'l' :: 's' :: 'e' :: cs => some (.bool false, cs)
    | cs => (readInt cs).map fun p => (.int p.1, p.2)

/-- One or more items and the closing bracket. -/
def readItems : Nat → List Char → Option (List Json × List Char)
  | 0, _ => none
  | fuel + 1, cs => do
    let (x, cs) ← readValue fuel cs
    match skip cs with
    | ']' :: cs => return ([x], cs)
    | ',' :: cs => do
      let (xs, cs) ← readItems fuel (skip cs)
      return (x :: xs, cs)
    | _ => none

/-- One or more fields and the closing brace. -/
def readFields : Nat → List Char → Option (List (String × Json) × List Char)
  | 0, _ => none
  | fuel + 1, '"' :: cs => do
    let (k, cs) ← readLiteral cs
    match skip cs with
    | ':' :: cs => do
      let (v, cs) ← readValue fuel (skip cs)
      match skip cs with
      | '}' :: cs => return ([(k, v)], cs)
      | ',' :: cs => do
        let (fs, cs) ← readFields fuel (skip cs)
        return ((k, v) :: fs, cs)
      | _ => none
    | _ => none
  | _, _ => none

end

/-- `json.loads` of a text. Nesting is bounded by the length. -/
def Json.loads (text : List Char) : Option Json := do
  let (v, rest) ← readValue (text.length + 1) (skip text)
  if (skip rest).isEmpty then some v else none

/-! ## Reading what was written -/

/-- What follows a value inside a document, or nothing. -/
def Ends (rest : List Char) : Prop :=
  rest = [] ∨ ∃ c cs, rest = c :: cs ∧ (c = ',' ∨ c = ']' ∨ c = '}')

theorem Ends.skip {rest : List Char} (h : Ends rest) : skip rest = rest := by
  rcases h with rfl | ⟨c, cs, rfl, hc⟩
  · rfl
  · rcases hc with rfl | rfl | rfl <;> rfl

theorem Char.ofNat_eq {c : Char} {n : Nat} (h : n = c.toNat) : Char.ofNat n = c := by
  rw [h, Char.ofNat_toNat]

/-- The code points of surrogates are no characters. -/
theorem Char.not_surrogate (c : Char) : c.toNat < 55296 ∨ 57344 ≤ c.toNat ∧ c.toNat < 1114112 := by
  rcases c.valid with h | ⟨h, h'⟩
  · exact Or.inl h
  · refine Or.inr ⟨?_, h'⟩
    have hlow : 57343 < c.toNat := h
    omega

theorem readUnicode_low {c : Char} (h : c.toNat < 65536) (rest : List Char) :
    readUnicode (numeral 16 4 c.toNat ++ rest) = some (c, rest) := by
  have hc := Char.not_surrogate c
  unfold readUnicode
  rw [readNumeral_numeral (by decide) (le_refl _) (by omega)]
  simp only [Option.bind_eq_bind, Option.bind_some, Option.pure_def]
  rw [if_neg (by omega), if_neg (by omega), Char.ofNat_toNat]

theorem readUnicode_pair {q r : Nat} (hq : q < 1024) (hr : r < 1024) (rest : List Char) :
    readUnicode (numeral 16 4 (55296 + q) ++ ('\\' :: 'u' :: (numeral 16 4 (56320 + r) ++ rest))) =
      some (Char.ofNat (65536 + q * 1024 + r), rest) := by
  have hhigh : 55296 + q < 16 ^ 4 := by omega
  have hlow : 56320 + r < 16 ^ 4 := by omega
  unfold readUnicode
  rw [readNumeral_numeral (by decide) (le_refl _) hhigh]
  simp only [Option.bind_eq_bind, Option.bind_some, Option.pure_def]
  rw [if_pos (by omega), readNumeral_numeral (by decide) (le_refl _) hlow]
  simp only [Option.bind_some]
  rw [if_pos (by omega), Nat.add_sub_cancel_left, Nat.add_sub_cancel_left]

theorem readChar_plain {c : Char} (hquote : c ≠ '\\') (h : 32 ≤ c.toNat) (rest : List Char) :
    readChar (c :: rest) = some (c, rest) := by
  rw [readChar.eq_def]
  split <;> simp_all

theorem readChar_unicode (cs : List Char) : readChar ('\\' :: 'u' :: cs) = readUnicode cs := rfl

theorem readChar_escape (c : Char) (rest : List Char) :
    readChar (escapeChar c ++ rest) = some (c, rest) := by
  unfold escapeChar
  split
  · subst_vars; rfl
  split
  · subst_vars; rfl
  split
  · rename_i h
    change some (Char.ofNat 8, rest) = _
    rw [Char.ofNat_eq h.symm]
  split
  · rename_i h
    change some (Char.ofNat 9, rest) = _
    rw [Char.ofNat_eq h.symm]
  split
  · rename_i h
    change some (Char.ofNat 10, rest) = _
    rw [Char.ofNat_eq h.symm]
  split
  · rename_i h
    change some (Char.ofNat 12, rest) = _
    rw [Char.ofNat_eq h.symm]
  split
  · rename_i h
    change some (Char.ofNat 13, rest) = _
    rw [Char.ofNat_eq h.symm]
  split
  · rename_i hback _ _ _ _ _ h
    exact readChar_plain hback h.1 rest
  split
  · rename_i h
    rw [List.cons_append, List.cons_append, readChar_unicode]
    exact readUnicode_low h rest
  · rename_i h
    have hc := Char.not_surrogate c
    have hq : (c.toNat - 65536) / 1024 < 1024 := by omega
    have hr : (c.toNat - 65536) % 1024 < 1024 := Nat.mod_lt _ (by decide)
    have hsum : 65536 + (c.toNat - 65536) / 1024 * 1024 + (c.toNat - 65536) % 1024 = c.toNat := by
      omega
    have hpair := readUnicode_pair hq hr rest
    rw [Char.ofNat_eq hsum] at hpair
    rw [List.cons_append, List.cons_append, List.append_assoc, List.cons_append, List.cons_append,
      readChar_unicode]
    exact hpair

/-- No character is written as a bare quote. -/
theorem escapeChar_head (c : Char) : ∃ d cs, escapeChar c = d :: cs ∧ d ≠ '"' := by
  unfold escapeChar
  split
  · exact ⟨_, _, rfl, by decide⟩
  · rename_i hquote
    split_ifs
    case pos | neg => exact ⟨_, _, rfl, by decide⟩
    all_goals first | exact ⟨_, _, rfl, hquote⟩ | exact ⟨_, _, rfl, by decide⟩

theorem readString_step {d : Char} {cs : List Char} (h : d ≠ '"') (fuel : Nat) :
    readString (fuel + 1) (d :: cs) = (do
      let (c, cs) ← readChar (d :: cs)
      let (s, cs) ← readString fuel cs
      return (c :: s, cs)) := by
  rw [readString]
  intro _ hd
  exact absurd (List.cons.inj hd).1 h

theorem readString_escape (cs rest : List Char) {fuel : Nat} (h : cs.length < fuel) :
    readString fuel (cs.flatMap escapeChar ++ '"' :: rest) = some (cs, rest) := by
  induction cs generalizing fuel with
  | nil =>
    obtain ⟨fuel, rfl⟩ := Nat.exists_eq_succ_of_ne_zero (Nat.ne_of_gt h)
    rfl
  | cons c cs ih =>
    obtain ⟨fuel, rfl⟩ := Nat.exists_eq_succ_of_ne_zero (Nat.ne_of_gt (Nat.zero_lt_of_lt h))
    have hread := readChar_escape c (cs.flatMap escapeChar ++ '"' :: rest)
    obtain ⟨d, ds, hd, hne⟩ := escapeChar_head c
    rw [List.flatMap_cons, List.append_assoc]
    rw [hd, List.cons_append] at hread ⊢
    rw [readString_step hne, hread]
    simp only [Option.bind_eq_bind, Option.bind_some]
    rw [ih (by simpa using h)]
    rfl

theorem length_escape (cs : List Char) : cs.length ≤ (cs.flatMap escapeChar).length := by
  induction cs with
  | nil => exact le_refl _
  | cons c cs ih =>
    obtain ⟨d, ds, hd, _⟩ := escapeChar_head c
    rw [List.flatMap_cons, List.length_append, hd, List.length_cons, List.length_cons]
    omega

theorem readLiteral_write (s : String) (rest : List Char) :
    readLiteral (s.toList.flatMap escapeChar ++ '"' :: rest) = some (s, rest) := by
  unfold readLiteral
  have hlen := length_escape s.toList
  rw [readString_escape _ _ (by simp only [List.length_append, List.length_cons]; omega)]
  simp

/-- A positive number does not begin with zero. -/
theorem toDigits_head {n : Nat} (h : 0 < n) :
    ∃ c cs, Nat.toDigits 10 n = c :: cs ∧ c ≠ '0' := by
  induction n using Nat.strongRecOn with
  | ind n ih =>
    rw [Nat.toDigits_eq_if (by decide)]
    split
    · refine ⟨_, _, rfl, fun hc => ?_⟩
      rw [Nat.digitChar_eq_zero] at hc
      omega
    · obtain ⟨c, cs, hcs, hne⟩ := ih (n / 10) (by omega) (by omega)
      rw [hcs]
      exact ⟨c, _, rfl, hne⟩

theorem Ends.not_digit {rest : List Char} (h : Ends rest) :
    rest.takeWhile (·.isDigit) = [] := by
  rcases h with rfl | ⟨c, cs, rfl, hc⟩
  · rfl
  · rcases hc with rfl | rfl | rfl <;> rfl

theorem readNat_toDigits (n : Nat) {rest : List Char} (h : Ends rest) :
    readNat (Nat.toDigits 10 n ++ rest) = some (n, rest) := by
  rcases Nat.eq_zero_or_pos n with rfl | hpos
  · rfl
  obtain ⟨c, cs, hcs, hne⟩ := toDigits_head hpos
  have htake : (Nat.toDigits 10 n ++ rest).takeWhile (·.isDigit) = Nat.toDigits 10 n := by
    rw [List.takeWhile_append_of_pos fun c hc => Nat.isDigit_of_mem_toDigits (by decide) (by decide) hc,
      h.not_digit, List.append_nil]
  have hread : readNat (Nat.toDigits 10 n ++ rest) =
      let digits := (Nat.toDigits 10 n ++ rest).takeWhile (·.isDigit)
      if digits.isEmpty then none
      else some (Nat.ofDigitChars 10 digits 0, (Nat.toDigits 10 n ++ rest).drop digits.length) := by
    rw [hcs, List.cons_append]
    unfold readNat
    split
    · rename_i hd
      exact absurd (List.cons.inj hd).1 hne
    · rfl
  rw [hread]
  simp only [htake]
  rw [if_neg (by simp [Nat.toDigits_ne_nil]), Nat.ofDigitChars_ten_toDigits, List.drop_left]

theorem writeNat_head (n : Nat) : ∃ c cs, Nat.toDigits 10 n = c :: cs ∧ c.isDigit = true := by
  cases h : Nat.toDigits 10 n with
  | nil => exact absurd h Nat.toDigits_ne_nil
  | cons c cs =>
    refine ⟨c, cs, rfl, Nat.isDigit_of_mem_toDigits (b := 10) (n := n) (by decide) (by decide) ?_⟩
    rw [h]
    exact List.mem_cons_self

theorem writeInt_head (n : Int) :
    ∃ c cs, writeInt n = c :: cs ∧ (c = '-' ∨ c.isDigit = true) := by
  cases n with
  | ofNat n =>
    obtain ⟨c, cs, hcs, hc⟩ := writeNat_head n
    exact ⟨c, cs, hcs, Or.inr hc⟩
  | negSucc n => exact ⟨'-', _, rfl, Or.inl rfl⟩

theorem readInt_write (n : Int) {rest : List Char} (h : Ends rest) :
    readInt (writeInt n ++ rest) = some (n, rest) := by
  cases n with
  | ofNat n =>
    have hread := readNat_toDigits n h
    unfold readInt writeInt
    split
    · rename_i cs hd
      obtain ⟨c, ds, hds, hdigit⟩ := writeNat_head n
      change Nat.toDigits 10 n ++ rest = _ at hd
      rw [hds, List.cons_append] at hd
      rw [(List.cons.inj hd).1] at hdigit
      cases hdigit
    · change (readNat (Nat.toDigits 10 n ++ rest)).map _ = _
      rw [hread]
      rfl
  | negSucc n =>
    have hread := readNat_toDigits (n + 1) h
    unfold readInt writeInt
    simp only [List.cons_append]
    rw [hread]
    rfl

/-! ## The round trip -/

mutual

/-- Every object has its fields in key order. -/
def Json.Sorted : Json → Prop
  | .arr xs => SortedItems xs
  | .obj fs => fs.Pairwise (·.1 < ·.1) ∧ SortedFields fs
  | _ => True

def SortedItems : List Json → Prop
  | [] => True
  | x :: xs => x.Sorted ∧ SortedItems xs

def SortedFields : List (String × Json) → Prop
  | [] => True
  | (_, v) :: fs => v.Sorted ∧ SortedFields fs

end

mutual

/-- The fuel a value is read with. -/
def Json.size : Json → Nat
  | .arr xs => sizeItems xs + 1
  | .obj fs => sizeFields fs + 1
  | _ => 1

def sizeItems : List Json → Nat
  | [] => 0
  | x :: xs => x.size + sizeItems xs + 1

def sizeFields : List (String × Json) → Nat
  | [] => 0
  | (_, v) :: fs => v.size + sizeFields fs + 1

end

theorem setField_last {key : String} {value : Json} {fields : List (String × Json)}
    (h : ∀ f ∈ fields, f.1 < key) : setField key value fields = fields ++ [(key, value)] := by
  induction fields with
  | nil => rfl
  | cons f fs ih =>
    obtain ⟨k, v⟩ := f
    have hk : k < key := h (k, v) List.mem_cons_self
    rw [setField, if_neg (not_lt.mpr (le_of_lt hk)), if_neg (ne_of_gt hk),
      ih fun f hf => h f (List.mem_cons_of_mem _ hf), List.cons_append]

/-- Fields in key order are a dictionary. -/
theorem Json.dict_sorted {fields : List (String × Json)} (h : fields.Pairwise (·.1 < ·.1)) :
    Json.dict fields = .obj fields := by
  unfold Json.dict
  congr 1
  induction fields using List.reverseRecOn with
  | nil => rfl
  | append_singleton fs f ih =>
    obtain ⟨hfs, _, hlast⟩ := List.pairwise_append.mp h
    rw [List.foldl_append, ih hfs, List.foldl_cons, List.foldl_nil]
    exact setField_last fun g hg => hlast g hg f (List.mem_singleton_self f)

theorem skip_cons {c : Char} {cs : List Char} (h : isSpace c = false) : skip (c :: cs) = c :: cs := by
  unfold skip
  rw [List.dropWhile_cons_of_neg (by simp [h])]

/-- A written value starts with no space, and not as the end of an array. -/
theorem Json.dumps_head (v : Json) :
    ∃ c cs, v.dumps = c :: cs ∧ isSpace c = false ∧ c ≠ ']' := by
  cases v with
  | null => exact ⟨_, _, rfl, by decide, by decide⟩
  | bool b => cases b <;> exact ⟨_, _, rfl, by decide, by decide⟩
  | int n =>
    obtain ⟨c, cs, hcs, hc⟩ := writeInt_head n
    refine ⟨c, cs, by rw [Json.dumps, hcs], ?_, ?_⟩
    · rcases hc with rfl | hc
      · rfl
      · cases hs : isSpace c with
        | false => rfl
        | true =>
          simp only [isSpace, Bool.or_eq_true, beq_iff_eq] at hs
          rcases hs with ((rfl | rfl) | rfl) | rfl <;> cases hc
    · rintro rfl
      rcases hc with hc | hc <;> cases hc
  | str s => exact ⟨'"', _, by rw [Json.dumps, writeString], by decide, by decide⟩
  | arr xs => cases xs <;> exact ⟨'[', _, by rw [Json.dumps], by decide, by decide⟩
  | obj fs => cases fs <;> exact ⟨'{', _, by rw [Json.dumps], by decide, by decide⟩

theorem skip_dumps (v : Json) (rest : List Char) : skip (v.dumps ++ rest) = v.dumps ++ rest := by
  obtain ⟨c, cs, hcs, hspace, _⟩ := v.dumps_head
  rw [hcs, List.cons_append, skip_cons hspace]

theorem readValue_int {c : Char} (h : c = '-' ∨ c.isDigit = true) (fuel : Nat) (cs : List Char) :
    readValue (fuel + 1) (c :: cs) = (readInt (c :: cs)).map fun p => (.int p.1, p.2) := by
  rw [readValue]
  all_goals
    intro _ hd
    rw [(List.cons.inj hd).1] at h
    rcases h with h | h <;> cases h

mutual

theorem Json.size_le : ∀ v : Json, v.size ≤ v.dumps.length
  | .null => by simp [Json.size, Json.dumps]
  | .bool b => by cases b <;> simp [Json.size, Json.dumps]
  | .int n => by
    obtain ⟨c, cs, hcs, _⟩ := writeInt_head n
    simp [Json.size, Json.dumps, hcs]
  | .str s => by simp [Json.size, Json.dumps, writeString]
  | .arr [] => by simp [Json.size, Json.dumps, sizeItems]
  | .arr (x :: xs) => by
    have hx := x.size_le
    have hxs := sizeItems_le xs
    simp only [Json.size, sizeItems, Json.dumps, List.length_cons, List.length_append]
    omega
  | .obj [] => by simp [Json.size, Json.dumps, sizeFields]
  | .obj ((k, v) :: fs) => by
    have hv := v.size_le
    have hfs := sizeFields_le fs
    simp only [Json.size, sizeFields, Json.dumps, List.length_cons, List.length_append]
    omega

theorem sizeItems_le : ∀ xs : List Json, sizeItems xs ≤ (dumpsItems xs).length
  | [] => by simp [sizeItems]
  | x :: xs => by
    have hx := x.size_le
    have hxs := sizeItems_le xs
    simp only [sizeItems, dumpsItems, List.length_cons, List.length_append]
    omega

theorem sizeFields_le : ∀ fs : List (String × Json), sizeFields fs ≤ (dumpsFields fs).length
  | [] => by simp [sizeFields]
  | (k, v) :: fs => by
    have hv := v.size_le
    have hfs := sizeFields_le fs
    simp only [sizeFields, dumpsFields, List.length_cons, List.length_append]
    omega

end

/-- Reading the text of `v` gives `v` back, whatever ends it. -/
def Reads (v : Json) : Prop :=
  ∀ fuel rest, v.size ≤ fuel → Ends rest → readValue fuel (v.dumps ++ rest) = some (v, rest)

theorem ends_close {c : Char} (h : c = ',' ∨ c = ']' ∨ c = '}') (rest : List Char) :
    Ends (c :: rest) := Or.inr ⟨c, rest, rfl, h⟩

theorem ends_dumpsItems (xs : List Json) (rest : List Char) :
    Ends (dumpsItems xs ++ ']' :: rest) := by
  cases xs with
  | nil => exact ends_close (by decide) _
  | cons x xs =>
    rw [dumpsItems, List.cons_append]
    exact ends_close (by decide) _

theorem ends_dumpsFields (fs : List (String × Json)) (rest : List Char) :
    Ends (dumpsFields fs ++ '}' :: rest) := by
  cases fs with
  | nil => exact ends_close (by decide) _
  | cons f fs =>
    rw [dumpsFields, List.cons_append]
    exact ends_close (by decide) _

/-! ### One step of the reader -/

section Steps
variable {fuel : Nat} {cs ds rest : List Char}

theorem readItems_last {x : Json} (h : readValue fuel cs = some (x, ']' :: rest)) :
    readItems (fuel + 1) cs = some ([x], rest) := by
  rw [readItems, h]
  rfl

theorem readItems_more {x : Json} {xs : List Json} (h : readValue fuel cs = some (x, ',' :: ds))
    (hskip : skip ds = ds) (hrest : readItems fuel ds = some (xs, rest)) :
    readItems (fuel + 1) cs = some (x :: xs, rest) := by
  rw [readItems, h]
  change (readItems fuel (skip ds) >>= fun p => some (x :: p.1, p.2)) = _
  rw [hskip, hrest]
  rfl

/-- A field up to the end of its value. -/
theorem readFields_field {k : String} :
    readFields (fuel + 1) (writeString k ++ ':' :: cs) = (do
      let (v, cs) ← readValue fuel (skip cs)
      match skip cs with
      | '}' :: cs => return ([(k, v)], cs)
      | ',' :: cs => do
        let (fs, cs) ← readFields fuel (skip cs)
        return ((k, v) :: fs, cs)
      | _ => none) := by
  rw [writeString, List.cons_append, List.append_assoc, List.singleton_append, readFields,
    readLiteral_write]
  rfl

theorem readFields_last {k : String} {v : Json} (hskip : skip cs = cs)
    (h : readValue fuel cs = some (v, '}' :: rest)) :
    readFields (fuel + 1) (writeString k ++ ':' :: cs) = some ([(k, v)], rest) := by
  rw [readFields_field, hskip, h]
  rfl

theorem readFields_more {k : String} {v : Json} {fs : List (String × Json)} (hskip : skip cs = cs)
    (h : readValue fuel cs = some (v, ',' :: ds)) (hskip' : skip ds = ds)
    (hrest : readFields fuel ds = some (fs, rest)) :
    readFields (fuel + 1) (writeString k ++ ':' :: cs) = some ((k, v) :: fs, rest) := by
  rw [readFields_field, hskip, h]
  change (readFields fuel (skip ds) >>= fun p => some ((k, v) :: p.1, p.2)) = _
  rw [hskip', hrest]
  rfl

theorem readValue_arr {c : Char} {xs : List Json} (hspace : isSpace c = false) (hclose : c ≠ ']')
    (h : readItems fuel (c :: cs) = some (xs, rest)) :
    readValue (fuel + 1) ('[' :: c :: cs) = some (.arr xs, rest) := by
  rw [readValue, skip_cons hspace]
  split
  · rename_i hd
    exact absurd (List.cons.inj hd).1 hclose
  · rw [h]
    rfl

theorem readValue_obj {fs : List (String × Json)}
    (h : readFields fuel ('"' :: cs) = some (fs, rest)) :
    readValue (fuel + 1) ('{' :: '"' :: cs) = some (.dict fs, rest) := by
  rw [readValue, skip_cons (by decide)]
  change (readFields fuel ('"' :: cs)).map _ = _
  rw [h]
  rfl

theorem skip_writeString (k : String) (rest : List Char) :
    skip (writeString k ++ rest) = writeString k ++ rest := by
  rw [writeString, List.cons_append, skip_cons (by decide)]

end Steps

theorem exists_fuel {n fuel : Nat} (h : n + 1 ≤ fuel) : ∃ m, fuel = m + 1 ∧ n ≤ m :=
  ⟨fuel - 1, by omega, by omega⟩

mutual

theorem Json.reads : ∀ v : Json, v.Sorted → Reads v
  | .null, _ => by
    intro fuel rest hfuel _
    obtain ⟨fuel, rfl, _⟩ := exists_fuel hfuel
    rfl
  | .bool b, _ => by
    intro fuel rest hfuel _
    obtain ⟨fuel, rfl, _⟩ := exists_fuel hfuel
    cases b <;> rfl
  | .int n, _ => by
    intro fuel rest hfuel hends
    obtain ⟨fuel, rfl, _⟩ := exists_fuel hfuel
    have hread := readInt_write n hends
    obtain ⟨c, cs, hcs, hc⟩ := writeInt_head n
    rw [Json.dumps]
    rw [hcs, List.cons_append] at hread ⊢
    rw [readValue_int hc, hread]
    rfl
  | .str s, _ => by
    intro fuel rest hfuel _
    obtain ⟨fuel, rfl, _⟩ := exists_fuel hfuel
    rw [Json.dumps, writeString, List.cons_append, List.append_assoc, List.singleton_append]
    change (readLiteral _).map _ = _
    rw [readLiteral_write]
    rfl
  | .arr [], _ => by
    intro fuel rest hfuel _
    obtain ⟨fuel, rfl, _⟩ := exists_fuel hfuel
    rfl
  | .arr (x :: xs), hs => by
    intro fuel rest hfuel _
    obtain ⟨hx, hxs⟩ := hs
    obtain ⟨fuel, rfl, hle⟩ := exists_fuel hfuel
    have hitems := readItems_dumps xs hxs x (x.reads hx) fuel rest hle
    obtain ⟨c, cs, hcs, hspace, hclose⟩ := x.dumps_head
    rw [Json.dumps, List.cons_append, List.append_assoc, List.append_assoc, List.singleton_append]
    rw [hcs, List.cons_append] at hitems ⊢
    exact readValue_arr hspace hclose hitems
  | .obj [], _ => by
    intro fuel rest hfuel _
    obtain ⟨fuel, rfl, _⟩ := exists_fuel hfuel
    rfl
  | .obj ((k, v) :: fs), hs => by
    intro fuel rest hfuel _
    obtain ⟨hsorted, hv, hfs⟩ := hs
    obtain ⟨fuel, rfl, hle⟩ := exists_fuel hfuel
    have hfields := readFields_dumps fs hfs k v (v.reads hv) fuel rest hle
    rw [Json.dumps, List.cons_append, List.append_assoc, List.cons_append, List.append_assoc,
      List.append_assoc, List.singleton_append]
    rw [writeString, List.cons_append] at hfields ⊢
    rw [readValue_obj hfields, Json.dict_sorted hsorted]

theorem readItems_dumps : ∀ xs : List Json, SortedItems xs → ∀ x, Reads x → ∀ fuel rest,
    x.size + sizeItems xs + 1 ≤ fuel →
    readItems fuel (x.dumps ++ (dumpsItems xs ++ ']' :: rest)) = some (x :: xs, rest)
  | [], _, x, hx, fuel, rest, hfuel => by
    obtain ⟨fuel, rfl, hfuel⟩ := exists_fuel hfuel
    exact readItems_last (hx fuel _ (by simpa [sizeItems] using hfuel) (ends_dumpsItems [] rest))
  | y :: ys, hs, x, hx, fuel, rest, hfuel => by
    obtain ⟨fuel, rfl, hfuel⟩ := exists_fuel hfuel
    rw [sizeItems] at hfuel
    have hrest := readItems_dumps ys hs.2 y (y.reads hs.1) fuel rest (by omega)
    have hfirst := hx fuel _ (by omega) (ends_dumpsItems (y :: ys) rest)
    rw [dumpsItems, List.cons_append, List.append_assoc] at hfirst ⊢
    exact readItems_more hfirst (skip_dumps y _) hrest

theorem readFields_dumps : ∀ fs : List (String × Json), SortedFields fs → ∀ k v, Reads v →
    ∀ fuel rest, v.size + sizeFields fs + 1 ≤ fuel →
    readFields fuel (writeString k ++ ':' :: (v.dumps ++ (dumpsFields fs ++ '}' :: rest))) =
      some ((k, v) :: fs, rest)
  | [], _, k, v, hv, fuel, rest, hfuel => by
    obtain ⟨fuel, rfl, hfuel⟩ := exists_fuel hfuel
    exact readFields_last (skip_dumps v _)
      (hv fuel _ (by simpa [sizeFields] using hfuel) (ends_dumpsFields [] rest))
  | (l, w) :: fs, hs, k, v, hv, fuel, rest, hfuel => by
    obtain ⟨fuel, rfl, hfuel⟩ := exists_fuel hfuel
    rw [sizeFields] at hfuel
    have hrest := readFields_dumps fs hs.2 l w (w.reads hs.1) fuel rest (by omega)
    have hfirst := hv fuel _ (by omega) (ends_dumpsFields ((l, w) :: fs) rest)
    rw [dumpsFields, List.cons_append, List.append_assoc, List.cons_append, List.append_assoc]
      at hfirst ⊢
    exact readFields_more (skip_dumps v _) hfirst (skip_writeString l _) hrest

end

/-- **Round trip.** Reading a written document gives it back. -/
theorem Json.loads_dumps {v : Json} (h : v.Sorted) : Json.loads v.dumps = some v := by
  have hread := v.reads h (v.dumps.length + 1) [] (Nat.le_succ_of_le v.size_le) (Or.inl rfl)
  rw [List.append_nil] at hread
  have hskip := skip_dumps v []
  rw [List.append_nil] at hskip
  unfold Json.loads
  rw [hskip, hread]
  rfl

/-! ## As bytes -/

/-- `json.dumps(..).encode("utf-8")`. -/
def Json.encode (v : Json) : List UInt8 := v.dumps.flatMap String.utf8EncodeChar

/-- `json.loads(raw)` of UTF-8. -/
def Json.decode (raw : List UInt8) : Option Json := do
  let text ← raw.toByteArray.utf8Decode?
  Json.loads text.toList

theorem Json.decode_encode {v : Json} (h : v.Sorted) : Json.decode v.encode = some v := by
  have htext : v.encode.toByteArray.utf8Decode? = some v.dumps.toArray := List.utf8Decode?_utf8Encode
  unfold Json.decode
  rw [htext]
  exact Json.loads_dumps h

/-! ## How long a text is -/

/-- Characters that are written as they are. -/
def Plain (cs : List Char) : Prop := ∀ c ∈ cs, escapeChar c = [c]

theorem plain_of_all {cs : List Char} (h : (cs.all fun c => escapeChar c == [c]) = true) : Plain cs :=
  fun c hc => eq_of_beq (List.all_eq_true.mp h c hc)

theorem Plain.append {cs ds : List Char} (hc : Plain cs) (hd : Plain ds) : Plain (cs ++ ds) :=
  fun c h => (List.mem_append.mp h).elim (hc c) (hd c)

theorem Plain.cons {c : Char} {cs : List Char} (hc : escapeChar c = [c]) (h : Plain cs) :
    Plain (c :: cs) := fun d hd => (List.mem_cons.mp hd).elim (fun he => he ▸ hc) (h d)

theorem plain_numeral {base : Nat} (h0 : 0 < base) (hb : base ≤ 16) (width n : Nat) :
    Plain (numeral base width n) := by
  intro c hc
  obtain ⟨d, hd, rfl⟩ := mem_numeral h0 hc
  have hall : ∀ d < 16, escapeChar (Nat.digitChar d) = [Nat.digitChar d] := by decide
  exact hall d (lt_of_lt_of_le hd hb)

theorem length_writeString {cs : List Char} (h : Plain cs) :
    (writeString (String.ofList cs)).length = cs.length + 2 := by
  have hall : cs.flatMap escapeChar = cs := by
    induction cs with
    | nil => rfl
    | cons c cs ih =>
      rw [List.flatMap_cons, h c List.mem_cons_self, ih fun d hd => h d (List.mem_cons_of_mem _ hd)]
      rfl
  unfold writeString
  rw [String.toList_ofList, hall]
  simp

theorem ascii_escapeChar (c : Char) : ∀ d ∈ escapeChar c, d.toNat < 128 := by
  have hhex : ∀ n, ∀ d ∈ numeral 16 4 n, d.toNat < 128 := by
    intro n d hd
    obtain ⟨k, hk, rfl⟩ := mem_numeral (by decide) hd
    have hall : ∀ k < 16, (Nat.digitChar k).toNat < 128 := by decide
    exact hall k hk
  intro d hd
  unfold escapeChar at hd
  split_ifs at hd <;> simp only [List.mem_cons, List.mem_append, List.not_mem_nil, or_false] at hd
  any_goals
    rcases hd with rfl | rfl
    · decide
    · decide
  · subst hd
    omega
  · rcases hd with rfl | rfl | hd
    · decide
    · decide
    · exact hhex _ d hd
  · rcases hd with rfl | rfl | hd | rfl | rfl | hd
    · decide
    · decide
    · exact hhex _ d hd
    · decide
    · decide
    · exact hhex _ d hd

theorem ascii_writeString (s : String) : ∀ d ∈ writeString s, d.toNat < 128 := by
  intro d hd
  rcases List.mem_cons.mp hd with rfl | hd
  · decide
  rcases List.mem_append.mp hd with hd | hd
  · obtain ⟨c, _, hd⟩ := List.mem_flatMap.mp hd
    exact ascii_escapeChar c d hd
  · cases List.mem_singleton.mp hd
    decide

theorem ascii_writeInt (n : Int) : ∀ d ∈ writeInt n, d.toNat < 128 := by
  have hdigits : ∀ m, ∀ d ∈ Nat.toDigits 10 m, d.toNat < 128 := by
    intro m d hd
    have hdigit := Nat.isDigit_of_mem_toDigits (by decide) (by decide) hd
    rw [Char.isDigit_iff_toNat] at hdigit
    exact lt_of_le_of_lt hdigit.2 (by decide)
  cases n with
  | ofNat m => exact hdigits m
  | negSucc m =>
    intro d hd
    rcases List.mem_cons.mp hd with rfl | hd
    · decide
    · exact hdigits (m + 1) d hd

theorem ascii_of_all {cs : List Char} (h : (cs.all fun d => decide (d.toNat < 128)) = true) :
    ∀ d ∈ cs, d.toNat < 128 :=
  fun d hd => of_decide_eq_true (List.all_eq_true.mp h d hd)

mutual

theorem Json.ascii_dumps : ∀ v : Json, ∀ d ∈ v.dumps, d.toNat < 128
  | .null => ascii_of_all rfl
  | .bool true => ascii_of_all rfl
  | .bool false => ascii_of_all rfl
  | .int n => ascii_writeInt n
  | .str s => ascii_writeString s
  | .arr [] => ascii_of_all rfl
  | .arr (x :: xs) => by
    have hx := x.ascii_dumps
    have hxs := ascii_dumpsItems xs
    intro d hd
    simp only [Json.dumps, List.mem_cons, List.mem_append, List.not_mem_nil, or_false] at hd
    rcases hd with rfl | hd | hd | rfl
    · decide
    · exact hx d hd
    · exact hxs d hd
    · decide
  | .obj [] => ascii_of_all rfl
  | .obj ((k, v) :: fs) => by
    have hv := v.ascii_dumps
    have hfs := ascii_dumpsFields fs
    intro d hd
    simp only [Json.dumps, List.mem_cons, List.mem_append, List.not_mem_nil, or_false] at hd
    rcases hd with rfl | hd | rfl | hd | hd | rfl
    · decide
    · exact ascii_writeString k d hd
    · decide
    · exact hv d hd
    · exact hfs d hd
    · decide

theorem ascii_dumpsItems : ∀ xs : List Json, ∀ d ∈ dumpsItems xs, d.toNat < 128
  | [] => ascii_of_all rfl
  | x :: xs => by
    have hx := x.ascii_dumps
    have hxs := ascii_dumpsItems xs
    intro d hd
    simp only [dumpsItems, List.mem_cons, List.mem_append] at hd
    rcases hd with rfl | hd | hd
    · decide
    · exact hx d hd
    · exact hxs d hd

theorem ascii_dumpsFields : ∀ fs : List (String × Json), ∀ d ∈ dumpsFields fs, d.toNat < 128
  | [] => ascii_of_all rfl
  | (k, v) :: fs => by
    have hv := v.ascii_dumps
    have hfs := ascii_dumpsFields fs
    intro d hd
    simp only [dumpsFields, List.mem_cons, List.mem_append] at hd
    rcases hd with rfl | hd | rfl | hd | hd
    · decide
    · exact ascii_writeString k d hd
    · decide
    · exact hv d hd
    · exact hfs d hd

end

/-- One byte a character. -/
theorem Json.length_encode (v : Json) : v.encode.length = v.dumps.length := by
  have hsize : ∀ cs : List Char, (∀ c ∈ cs, c.toNat < 128) →
      (cs.flatMap String.utf8EncodeChar).length = cs.length := by
    intro cs h
    induction cs with
    | nil => rfl
    | cons c cs ih =>
      have hc : c.utf8Size = 1 := by
        rw [Char.utf8Size_eq_one_iff, UInt32.le_iff_toNat_le]
        exact Nat.le_of_lt_succ (h c List.mem_cons_self)
      rw [List.flatMap_cons, List.length_append, String.length_utf8EncodeChar, hc,
        ih fun d hd => h d (List.mem_cons_of_mem _ hd), List.length_cons, Nat.add_comm]
  exact hsize v.dumps v.ascii_dumps

end FinDB.Lib
