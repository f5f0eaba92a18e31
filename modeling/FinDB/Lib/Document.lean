import Mathlib.Data.List.Forall2
import FinDB.Lib.Json

/-! # JSON documents over atoms

The words and numbers of a document are a parameter: an atom is read from the
characters up to the next delimiter. Arrays and objects are one kind of
sequence, whose items are read by the reader one level down. -/
namespace FinDB.Lib

/-! ## Sequences -/

/-- Texts with commas between them, and the closing character. -/
def joined (close : Char) : List (List Char) → List Char
  | [] => [close]
  | [text] => text ++ [close]
  | text :: next :: texts => text ++ ',' :: joined close (next :: texts)

section Sequences
variable {α : Type} {close : Char} {item : List Char → Option (α × List Char)}

/-- One or more items and the closing character. -/
def readSequence (close : Char) (item : List Char → Option (α × List Char)) :
    Nat → List Char → Option (List α × List Char)
  | 0, _ => none
  | n + 1, cs => do
    let (x, cs) ← item cs
    match skip cs with
    | [] => none
    | c :: cs =>
      if c = close then return ([x], cs)
      else if c = ',' then do
        let (xs, cs) ← readSequence close item n (skip cs)
        return (x :: xs, cs)
      else none

/-- What follows an opening bracket. -/
def readBracket (close : Char) (item : List Char → Option (α × List Char)) (cs : List Char) :
    Option (List α × List Char) :=
  match skip cs with
  | [] => none
  | c :: cs =>
    if c = close then some ([], cs) else readSequence close item (cs.length + 1) (c :: cs)

/-- `item` reads `x` from `text`, whatever ends it. -/
structure ReadsAs (item : List Char → Option (α × List Char)) (x : α) (text : List Char) : Prop where
  start : ∃ c cs, text = c :: cs ∧ isSpace c = false ∧ c ≠ ']' ∧ c ≠ '}'
  read : ∀ rest, Ends rest → item (text ++ rest) = some (x, rest)

theorem ReadsAs.skip {x : α} {text : List Char} (h : ReadsAs item x text) (rest : List Char) :
    skip (text ++ rest) = text ++ rest := by
  obtain ⟨c, cs, rfl, hspace, _⟩ := h.start
  exact skip_cons hspace

theorem length_joined (close : Char) (texts : List (List Char)) :
    texts.length ≤ (joined close texts).length := by
  induction texts with
  | nil => exact Nat.zero_le _
  | cons text texts ih =>
    cases texts with
    | nil => simp [joined]
    | cons next texts =>
      simp only [joined, List.length_append, List.length_cons] at ih ⊢
      omega

theorem joined_cons (close : Char) (text : List Char) (texts : List (List Char)) :
    joined close (text :: texts) =
      text ++ if texts = [] then [close] else ',' :: joined close texts := by
  cases texts <;> rfl

/-- What is joined gets no shorter. -/
theorem length_joined_cons (close : Char) (text : List Char) (texts : List (List Char)) :
    max text.length (joined close texts).length ≤ (joined close (text :: texts)).length := by
  rw [joined_cons, List.length_append]
  split_ifs with h
  · simp [h, joined]
  · rw [List.length_cons]
    omega

theorem readSequence_joined (hclose : close = ']' ∨ close = '}') {xs : List α}
    {texts : List (List Char)} (hs : List.Forall₂ (ReadsAs item) xs texts) :
    ∀ {x text n}, ReadsAs item x text → xs.length < n → ∀ rest,
      readSequence close item n (joined close (text :: texts) ++ rest) = some (x :: xs, rest) := by
  have hends : close = ',' ∨ close = ']' ∨ close = '}' := Or.inr hclose
  have hcomma : (',' : Char) ≠ close := by rcases hclose with rfl | rfl <;> decide
  have hspace : isSpace close = false := by rcases hclose with rfl | rfl <;> rfl
  induction hs with
  | nil =>
    intro x text n hx hn rest
    obtain ⟨n, rfl⟩ := Nat.exists_eq_succ_of_ne_zero (Nat.ne_of_gt hn)
    rw [joined, List.append_assoc, List.singleton_append, readSequence,
      hx.read _ (ends_close hends rest)]
    change (match Lib.skip (close :: rest) with
      | [] => none
      | c :: cs => _) = _
    rw [skip_cons hspace]
    exact if_pos rfl
  | @cons y next xs texts hy _ ih =>
    intro x text n hx hn rest
    obtain ⟨n, rfl⟩ := Nat.exists_eq_succ_of_ne_zero (Nat.ne_of_gt (Nat.zero_lt_of_lt hn))
    have hrest := ih hy (Nat.lt_of_succ_lt_succ hn) rest
    have hskip : Lib.skip (joined close (next :: texts) ++ rest) =
        joined close (next :: texts) ++ rest := by
      rw [joined_cons, List.append_assoc]
      exact hy.skip _
    rw [joined, List.append_assoc, List.cons_append, readSequence,
      hx.read _ (ends_close (Or.inl rfl) _)]
    change (match Lib.skip (',' :: (joined close (next :: texts) ++ rest)) with
      | [] => none
      | c :: cs => _) = _
    rw [skip_cons rfl]
    change (if ',' = close then _ else if ',' = ',' then _ else _) = _
    rw [if_neg hcomma, if_pos rfl, hskip, hrest]
    rfl

theorem readBracket_joined (hclose : close = ']' ∨ close = '}') {xs : List α}
    {texts : List (List Char)} (hs : List.Forall₂ (ReadsAs item) xs texts) (rest : List Char) :
    readBracket close item (joined close texts ++ rest) = some (xs, rest) := by
  cases hs with
  | nil =>
    have hspace : isSpace close = false := by rcases hclose with rfl | rfl <;> rfl
    rw [joined, List.singleton_append, readBracket, skip_cons hspace]
    exact if_pos rfl
  | @cons x text xs texts hx hs =>
    have hlen := length_joined close texts
    have hread := readSequence_joined hclose hs hx
      (n := (joined close (text :: texts) ++ rest).length) (by
        rw [hs.length_eq, joined_cons, List.length_append, List.length_append]
        split_ifs with h
        · simp [h]
        · rw [List.length_cons]
          omega) rest
    have hskip := hx.skip ((if texts = [] then [close] else ',' :: joined close texts) ++ rest)
    obtain ⟨c, cs, rfl, _, hbracket, hbrace⟩ := hx.start
    have hne : c ≠ close := by rcases hclose with rfl | rfl <;> assumption
    rw [joined_cons, List.append_assoc] at hread ⊢
    rw [readBracket, hskip]
    change (if c = close then _ else _) = _
    rw [if_neg hne]
    exact hread

end Sequences

/-! ## Documents -/

/-- What ends an atom. -/
def isDelimiter (c : Char) : Bool := isSpace c || c == ',' || c == ']' || c == '}'

/-- How atoms are written and read. -/
structure Atoms (A : Type) where
  write : A → List Char
  read : List Char → Option A
  read_write : ∀ a, read (write a) = some a
  plain : ∀ a, ∀ c ∈ write a, isDelimiter c = false
  head : ∀ a, ∃ c cs, write a = c :: cs ∧ c ≠ '"' ∧ c ≠ '[' ∧ c ≠ '{'

/-- An object is its fields in key order, so that equal dictionaries are equal documents. -/
inductive Document (A : Type) where
  | atom (a : A)
  | str (s : String)
  | arr (items : List (Document A))
  | obj (fields : List (String × Document A))
deriving Repr

section Dictionaries
variable {V : Type}

/-- `d[key] = value` on fields in key order. -/
def insertField (key : String) (value : V) : List (String × V) → List (String × V)
  | [] => [(key, value)]
  | (k, v) :: fields =>
    if key < k then (key, value) :: (k, v) :: fields
    else if key = k then (key, value) :: fields
    else (k, v) :: insertField key value fields

/-- A dictionary from its items: the last one of a key counts. -/
def dictionary (items : List (String × V)) : List (String × V) :=
  items.foldl (fun fields item => insertField item.1 item.2 fields) []

theorem insertField_last {key : String} {value : V} {fields : List (String × V)}
    (h : ∀ f ∈ fields, f.1 < key) : insertField key value fields = fields ++ [(key, value)] := by
  induction fields with
  | nil => rfl
  | cons f fs ih =>
    obtain ⟨k, v⟩ := f
    have hk : k < key := h (k, v) List.mem_cons_self
    rw [insertField, if_neg (not_lt.mpr (le_of_lt hk)), if_neg (ne_of_gt hk),
      ih fun f hf => h f (List.mem_cons_of_mem _ hf), List.cons_append]

/-- Fields in key order are a dictionary. -/
theorem dictionary_sorted {fields : List (String × V)} (h : fields.Pairwise (·.1 < ·.1)) :
    dictionary fields = fields := by
  unfold dictionary
  induction fields using List.reverseRecOn with
  | nil => rfl
  | append_singleton fs f ih =>
    obtain ⟨hfs, _, hlast⟩ := List.pairwise_append.mp h
    rw [List.foldl_append, ih hfs, List.foldl_cons, List.foldl_nil]
    exact insertField_last fun g hg => hlast g hg f (List.mem_singleton_self f)

end Dictionaries

namespace Document
variable {A : Type} (T : Atoms A)

/-! ### Writing -/

mutual

/-- `json.dumps(document, sort_keys=True, separators=(",", ":"))`. -/
def dumps : Document A → List Char
  | .atom a => T.write a
  | .str s => writeString s
  | .arr xs => '[' :: joined ']' (dumpsItems xs)
  | .obj fs => '{' :: joined '}' (dumpsFields fs)

def dumpsItems : List (Document A) → List (List Char)
  | [] => []
  | x :: xs => x.dumps :: dumpsItems xs

def dumpsFields : List (String × Document A) → List (List Char)
  | [] => []
  | (k, v) :: fs => (writeString k ++ ':' :: v.dumps) :: dumpsFields fs

end

/-! ### Reading -/

/-- A key, a colon and a value. -/
def readField {V : Type} (value : List Char → Option (V × List Char)) :
    List Char → Option ((String × V) × List Char)
  | '"' :: cs => do
    let (k, cs) ← readLiteral cs
    match skip cs with
    | ':' :: cs => do
      let (v, cs) ← value (skip cs)
      return ((k, v), cs)
    | _ => none
  | _ => none

def readAtom (cs : List Char) : Option (Document A × List Char) :=
  (T.read (cs.takeWhile fun c => !isDelimiter c)).map fun a =>
    (.atom a, cs.dropWhile fun c => !isDelimiter c)

def readValue : Nat → List Char → Option (Document A × List Char)
  | 0, _ => none
  | fuel + 1, cs =>
    match cs with
    | '"' :: cs => (readLiteral cs).map fun p => (.str p.1, p.2)
    | '[' :: cs => (readBracket ']' (readValue fuel) cs).map fun p => (.arr p.1, p.2)
    | '{' :: cs =>
      (readBracket '}' (readField (readValue fuel)) cs).map fun p => (.obj (dictionary p.1), p.2)
    | cs => readAtom T cs

/-- `json.loads` of a text. Nesting is bounded by the length. -/
def loads (text : List Char) : Option (Document A) := do
  let (v, rest) ← readValue T (text.length + 1) (skip text)
  if (skip rest).isEmpty then some v else none

/-! ### The round trip -/

mutual

/-- Every object has its fields in key order. -/
def Sorted : Document A → Prop
  | .arr xs => SortedItems xs
  | .obj fs => fs.Pairwise (·.1 < ·.1) ∧ SortedFields fs
  | _ => True

def SortedItems : List (Document A) → Prop
  | [] => True
  | x :: xs => x.Sorted ∧ SortedItems xs

def SortedFields : List (String × Document A) → Prop
  | [] => True
  | (_, v) :: fs => v.Sorted ∧ SortedFields fs

end

mutual

/-- The fuel a value is read with. -/
def depth : Document A → Nat
  | .arr xs => depthItems xs + 1
  | .obj fs => depthFields fs + 1
  | _ => 1

def depthItems : List (Document A) → Nat
  | [] => 0
  | x :: xs => max x.depth (depthItems xs)

def depthFields : List (String × Document A) → Nat
  | [] => 0
  | (_, v) :: fs => max v.depth (depthFields fs)

end

theorem not_isDelimiter_of_ends {rest : List Char} (h : Ends rest) (cs : List Char)
    (hcs : ∀ c ∈ cs, isDelimiter c = false) :
    ((cs ++ rest).takeWhile fun c => !isDelimiter c) = cs ∧
      ((cs ++ rest).dropWhile fun c => !isDelimiter c) = rest := by
  have hall : ∀ c ∈ cs, (!isDelimiter c) = true := fun c hc => by rw [hcs c hc]; rfl
  have hrest : (rest.takeWhile fun c => !isDelimiter c) = [] ∧
      (rest.dropWhile fun c => !isDelimiter c) = rest := by
    rcases h with rfl | ⟨c, ds, rfl, rfl | rfl | rfl⟩ <;> exact ⟨rfl, rfl⟩
  rw [List.takeWhile_append_of_pos hall, List.dropWhile_append_of_pos hall, hrest.1, hrest.2,
    List.append_nil]
  exact ⟨rfl, rfl⟩

theorem readValue_atom (a : A) (fuel : Nat) {rest : List Char} (h : Ends rest) :
    readValue T (fuel + 1) (T.write a ++ rest) = some (.atom a, rest) := by
  have hread : readAtom T (T.write a ++ rest) = some (.atom a, rest) := by
    obtain ⟨htake, hdrop⟩ := not_isDelimiter_of_ends h _ (T.plain a)
    rw [readAtom, htake, hdrop, T.read_write]
    rfl
  obtain ⟨c, cs, hcs, hquote, hbracket, hbrace⟩ := T.head a
  rw [hcs, List.cons_append] at hread ⊢
  rw [readValue]
  · exact hread
  · exact fun _ hd => hquote (List.cons.inj hd).1
  · exact fun _ hd => hbracket (List.cons.inj hd).1
  · exact fun _ hd => hbrace (List.cons.inj hd).1

theorem dumps_start (v : Document A) :
    ∃ c cs, v.dumps T = c :: cs ∧ isSpace c = false ∧ c ≠ ']' ∧ c ≠ '}' := by
  cases v with
  | atom a =>
    obtain ⟨c, cs, hcs, _⟩ := T.head a
    have hplain := T.plain a c (by rw [hcs]; exact List.mem_cons_self)
    simp only [isDelimiter, Bool.or_eq_false_iff, beq_eq_false_iff_ne] at hplain
    exact ⟨c, cs, by rw [dumps, hcs], hplain.1.1.1, hplain.1.2, hplain.2⟩
  | str s => exact ⟨'"', _, by rw [dumps, writeString], rfl, by decide, by decide⟩
  | arr xs => exact ⟨'[', _, by rw [dumps], rfl, by decide, by decide⟩
  | obj fs => exact ⟨'{', _, by rw [dumps], rfl, by decide, by decide⟩

mutual

theorem depth_le : ∀ v : Document A, v.depth ≤ (v.dumps T).length
  | .atom a => by
    obtain ⟨c, cs, hcs, _⟩ := T.head a
    simp [depth, dumps, hcs]
  | .str s => by simp [depth, dumps, writeString]
  | .arr xs => by
    rw [depth, dumps, List.length_cons]
    exact Nat.succ_le_succ (depthItems_le ']' xs)
  | .obj fs => by
    rw [depth, dumps, List.length_cons]
    exact Nat.succ_le_succ (depthFields_le '}' fs)

theorem depthItems_le (close : Char) :
    ∀ xs : List (Document A), depthItems xs ≤ (joined close (dumpsItems T xs)).length
  | [] => Nat.zero_le _
  | x :: xs => by
    have hx := depth_le x
    have hxs := depthItems_le close xs
    have hlen := length_joined_cons close (x.dumps T) (dumpsItems T xs)
    rw [depthItems, dumpsItems]
    omega

theorem depthFields_le (close : Char) :
    ∀ fs : List (String × Document A), depthFields fs ≤ (joined close (dumpsFields T fs)).length
  | [] => Nat.zero_le _
  | (k, v) :: fs => by
    have hv := depth_le v
    have hfs := depthFields_le close fs
    have hlen := length_joined_cons close (writeString k ++ ':' :: v.dumps T) (dumpsFields T fs)
    rw [List.length_append, List.length_cons] at hlen
    rw [depthFields, dumpsFields]
    omega

end

variable {T} in
theorem readsAs_field {fuel : Nat} {v : Document A} (k : String)
    (h : ReadsAs (readValue T fuel) v (v.dumps T)) :
    ReadsAs (readField (readValue T fuel)) (k, v) (writeString k ++ ':' :: v.dumps T) := by
  refine ⟨⟨'"', _, rfl, rfl, by decide, by decide⟩, fun rest hends => ?_⟩
  rw [List.append_assoc, writeString, List.cons_append, List.append_assoc, List.singleton_append,
    readField, readLiteral_write]
  change (readValue T fuel (skip (v.dumps T ++ rest)) >>= fun p => some ((k, p.1), p.2)) = _
  rw [h.skip, h.read rest hends]
  rfl

theorem readValue_str (s : String) (fuel : Nat) (rest : List Char) :
    readValue T (fuel + 1) (writeString s ++ rest) = some (.str s, rest) := by
  rw [writeString, List.cons_append, List.append_assoc, List.singleton_append]
  change (readLiteral _).map _ = _
  rw [readLiteral_write]
  rfl

mutual

/-- Reading the text of a document gives it back. -/
theorem reads : ∀ v : Document A, v.Sorted → ∀ fuel, v.depth ≤ fuel →
    ReadsAs (readValue T fuel) v (v.dumps T)
  | .atom a, _, fuel, hfuel => by
    obtain ⟨fuel, rfl, _⟩ := exists_fuel hfuel
    exact ⟨dumps_start T _, fun rest hends => readValue_atom T a fuel hends⟩
  | .str s, _, fuel, hfuel => by
    obtain ⟨fuel, rfl, _⟩ := exists_fuel hfuel
    exact ⟨dumps_start T _, fun rest _ => readValue_str T s fuel rest⟩
  | .arr xs, hs, fuel, hfuel => by
    obtain ⟨fuel, rfl, hle⟩ := exists_fuel hfuel
    refine ⟨dumps_start T _, fun rest _ => ?_⟩
    have hitems := readBracket_joined (Or.inl rfl) (readsItems xs hs fuel hle) rest
    rw [dumps, List.cons_append, readValue, hitems]
    rfl
  | .obj fs, hs, fuel, hfuel => by
    obtain ⟨fuel, rfl, hle⟩ := exists_fuel hfuel
    refine ⟨dumps_start T _, fun rest _ => ?_⟩
    have hfields := readBracket_joined (Or.inr rfl) (readsFields fs hs.2 fuel hle) rest
    rw [dumps, List.cons_append, readValue, hfields, Option.map_some, dictionary_sorted hs.1]

theorem readsItems : ∀ xs : List (Document A), SortedItems xs → ∀ fuel, depthItems xs ≤ fuel →
    List.Forall₂ (ReadsAs (readValue T fuel)) xs (dumpsItems T xs)
  | [], _, _, _ => .nil
  | x :: xs, hs, fuel, hfuel =>
    .cons (reads x hs.1 fuel (le_trans (le_max_left _ _) hfuel))
      (readsItems xs hs.2 fuel (le_trans (le_max_right _ _) hfuel))

theorem readsFields : ∀ fs : List (String × Document A), SortedFields fs → ∀ fuel,
    depthFields fs ≤ fuel →
    List.Forall₂ (ReadsAs (readField (readValue T fuel))) fs (dumpsFields T fs)
  | [], _, _, _ => .nil
  | (k, v) :: fs, hs, fuel, hfuel =>
    .cons (readsAs_field k (reads v hs.1 fuel (le_trans (le_max_left _ _) hfuel)))
      (readsFields fs hs.2 fuel (le_trans (le_max_right _ _) hfuel))

end

/-- **Round trip.** Reading a written document gives it back. -/
theorem loads_dumps {v : Document A} (h : v.Sorted) : loads T (v.dumps T) = some v := by
  have hreads := reads T v h ((v.dumps T).length + 1) (Nat.le_succ_of_le (depth_le T v))
  have hskip := hreads.skip []
  have hread := hreads.read [] (Or.inl rfl)
  rw [List.append_nil] at hskip hread
  rw [loads, hskip, hread]
  rfl

/-! ### As bytes -/

/-- `json.dumps(..).encode("utf-8")`. -/
def encode (v : Document A) : List UInt8 := (v.dumps T).flatMap String.utf8EncodeChar

/-- `json.loads(raw)` of UTF-8. -/
def decode (raw : List UInt8) : Option (Document A) := do
  let text ← raw.toByteArray.utf8Decode?
  loads T text.toList

theorem decode_encode {v : Document A} (h : v.Sorted) : decode T (v.encode T) = some v := by
  have htext : (v.encode T).toByteArray.utf8Decode? = some (v.dumps T).toArray :=
    List.utf8Decode?_utf8Encode
  rw [decode, htext]
  exact loads_dumps T h

end Document

/-! ## Words and numbers -/

/-- How floats are written and read: `float.__repr__`, and the float of a token with a fraction or
an exponent, of `NaN`, `Infinity` or `-Infinity`. -/
structure FloatText (F : Type) where
  write : F → List Char
  read : List Char → Option F
  read_write : ∀ x, read (write x) = some x
  head : ∀ x, ∃ c cs, write x = c :: cs ∧ c ∈ "0123456789-NI".toList
  letters : ∀ x, ∀ c ∈ write x, c ∈ "0123456789-+.eNaInfity".toList
  not_int : ∀ x, ∃ c ∈ write x, c ≠ '-' ∧ c.isDigit = false

/-- An integer of more than 4300 digits has no text, and a text of more has no integer. -/
def Short (n : Int) : Prop := n.natAbs < 10 ^ 4300

instance Short.decidable (n : Int) : Decidable (Short n) := inferInstanceAs (Decidable (_ < _))

-- The bound is no number to compute with.
attribute [irreducible] Short Short.decidable

inductive Scalar (F : Type) where
  | null
  | bool (b : Bool)
  | int (n : { n : Int // Short n })
  | float (x : F)
deriving DecidableEq

namespace Scalar
variable {F : Type} (T : FloatText F)

def write : Scalar F → List Char
  | .null => ['n', 'u', 'l', 'l']
  | .bool true => ['t', 'r', 'u', 'e']
  | .bool false => ['f', 'a', 'l', 's', 'e']
  | .int n => writeInt n
  | .float x => T.write x

def read (token : List Char) : Option (Scalar F) :=
  if token = ['n', 'u', 'l', 'l'] then some .null
  else if token = ['t', 'r', 'u', 'e'] then some (.bool true)
  else if token = ['f', 'a', 'l', 's', 'e'] then some (.bool false)
  else
    match readInt token with
    | some (n, []) => if h : Short n then some (.int ⟨n, h⟩) else none
    | _ => (T.read token).map .float

/-- No word is a token that begins like a number. -/
theorem read_number {token : List Char} {c : Char} {cs : List Char} (h : token = c :: cs)
    (hc : c ≠ 'n' ∧ c ≠ 't' ∧ c ≠ 'f') :
    read T token = match readInt token with
      | some (n, []) => if h : Short n then some (.int ⟨n, h⟩) else none
      | _ => (T.read token).map .float := by
  subst h
  rw [read, if_neg fun hd => hc.1 (List.cons.inj hd).1, if_neg fun hd => hc.2.1 (List.cons.inj hd).1,
    if_neg fun hd => hc.2.2 (List.cons.inj hd).1]

theorem readNat_digits {cs : List Char} {n : Nat} (h : readNat cs = some (n, [])) :
    ∀ c ∈ cs, c.isDigit = true := by
  unfold readNat at h
  split at h
  · obtain ⟨_, rfl⟩ := Prod.mk.inj (Option.some.inj h)
    intro c hc
    rw [List.mem_singleton.mp hc]
    rfl
  · dsimp only at h
    split at h
    · cases h
    · have hdrop := (Prod.mk.inj (Option.some.inj h)).2
      have hall : (cs.takeWhile fun c => c.isDigit) = cs := by
        rw [List.drop_eq_nil_iff] at hdrop
        exact List.IsPrefix.eq_of_length_le (List.takeWhile_prefix _) hdrop
      rw [← hall]
      exact List.all_eq_true.mp List.all_takeWhile

/-- A token that is an integer has no other characters. -/
theorem readInt_digits {cs : List Char} {n : Int} (h : readInt cs = some (n, [])) :
    ∀ c ∈ cs, c = '-' ∨ c.isDigit = true := by
  unfold readInt at h
  split at h
  all_goals
    obtain ⟨⟨m, rest⟩, hread, hm⟩ := Option.map_eq_some_iff.mp h
    have hrest := (Prod.mk.inj hm).2
    subst hrest
    have hdigits := readNat_digits hread
    intro c hc
  · rcases List.mem_cons.mp hc with rfl | hc
    · exact Or.inl rfl
    · exact Or.inr (hdigits c hc)
  · exact Or.inr (hdigits c hc)

theorem read_write (s : Scalar F) : read T (s.write T) = some s := by
  cases s with
  | null => rfl
  | bool b => cases b <;> rfl
  | int n =>
    obtain ⟨c, cs, hcs, hc⟩ := writeInt_head n.1
    have hread := readInt_write n.1 (Or.inl rfl : Ends [])
    rw [List.append_nil] at hread
    rw [write, read_number T hcs (by
      refine ⟨?_, ?_, ?_⟩ <;> rintro rfl <;> rcases hc with hc | hc <;> cases hc), hread]
    exact dif_pos n.2
  | float x =>
    obtain ⟨d, hd, hne, hdigit⟩ := T.not_int x
    obtain ⟨c, cs, hcs, hc⟩ := T.head x
    rw [write, read_number T hcs (by
      refine ⟨?_, ?_, ?_⟩
      all_goals
        rintro rfl
        simp at hc)]
    split
    · rename_i n h
      rcases readInt_digits h d hd with rfl | h
      · exact absurd rfl hne
      · rw [hdigit] at h
        cases h
    · rw [T.read_write]
      rfl

theorem not_isDelimiter_digit {c : Char} (h : c = '-' ∨ c.isDigit = true) :
    isDelimiter c = false ∧ c ≠ '"' ∧ c ≠ '[' ∧ c ≠ '{' := by
  rcases h with rfl | h
  · decide
  · refine ⟨?_, ?_, ?_, ?_⟩
    · cases hd : isDelimiter c with
      | false => rfl
      | true =>
        simp only [isDelimiter, isSpace, Bool.or_eq_true, beq_iff_eq] at hd
        rcases hd with (((((rfl | rfl) | rfl) | rfl) | rfl) | rfl) | rfl <;> cases h
    all_goals
      rintro rfl
      cases h

/-- Every character of an integer is a digit or the sign. -/
theorem writeInt_digits (n : Int) : ∀ c ∈ writeInt n, c = '-' ∨ c.isDigit = true := by
  have hread := readInt_write n (Or.inl rfl : Ends [])
  rw [List.append_nil] at hread
  exact readInt_digits hread

theorem plain_of_all {cs : List Char} (h : (cs.all fun c => !isDelimiter c) = true) :
    ∀ c ∈ cs, isDelimiter c = false := fun c hc => by
  simpa using List.all_eq_true.mp h c hc

theorem plain (s : Scalar F) : ∀ c ∈ s.write T, isDelimiter c = false := by
  cases s with
  | null => exact plain_of_all rfl
  | bool b => cases b <;> exact plain_of_all rfl
  | int n => exact fun c hc => (not_isDelimiter_digit (writeInt_digits n.1 c hc)).1
  | float x =>
    have hall : ∀ c ∈ "0123456789-+.eNaInfity".toList, isDelimiter c = false := plain_of_all rfl
    exact fun c hc => hall c (T.letters x c hc)

theorem head (s : Scalar F) : ∃ c cs, s.write T = c :: cs ∧ c ≠ '"' ∧ c ≠ '[' ∧ c ≠ '{' := by
  cases s with
  | null => exact ⟨_, _, rfl, by decide⟩
  | bool b => cases b <;> exact ⟨_, _, rfl, by decide⟩
  | int n =>
    obtain ⟨c, cs, hcs, hc⟩ := writeInt_head n.1
    exact ⟨c, cs, hcs, (not_isDelimiter_digit hc).2⟩
  | float x =>
    obtain ⟨c, cs, hcs, hc⟩ := T.head x
    refine ⟨c, cs, hcs, ?_, ?_, ?_⟩
    all_goals
      rintro rfl
      simp at hc

/-- The words and numbers of Python's documents. -/
def atoms : Atoms (Scalar F) where
  write := write T
  read := read T
  read_write := read_write T
  plain := plain T
  head := head T

end Scalar

end FinDB.Lib
