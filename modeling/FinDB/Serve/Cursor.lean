import FinDB.Serve.Rows

/-! # Cursors

The text of a cursor, and a page with the cursor behind its last row. A cursor the
service emits is one it reads, and how long it is only depends on the query. -/
namespace FinDB.Serve
open FinDB.Lib

def maxCursorLength : Nat := 2048
def maxCursorBytes : Nat := 1536

def invalidCursor (message : String) : Err := .serve 422 "INVALID_CURSOR" message

/-! ## The text -/

/-- `_encode_cursor(payload)`. -/
def encodeCursor (payload : Json) : Except Err String := do
  let raw := payload.encode
  ensure (raw.length ≤ maxCursorBytes) (invalidCursor "Cursor payload is too large")
  return String.ofList (base64Encode raw)

/-- What stands in the `try`, up to the document. -/
def readPayload (cursor : String) : Option Json := do
  let raw ← base64Decode cursor.toList
  if raw.length ≤ maxCursorBytes then Json.decode raw else none

/-- `_decode_cursor(cursor)`: the items of the payload. -/
def decodeCursor (cursor : String) : Except Err (List (String × Json)) := do
  ensure (!cursor.toList.isEmpty && decide (cursor.toList.length ≤ maxCursorLength) &&
    cursor.toList.all fun c => (sextetVal c).isSome) (invalidCursor "Cursor is invalid")
  let payload ← need (readPayload cursor) (invalidCursor "Cursor is invalid")
  match payload with
  | .obj fields => return fields
  | _ => .error (invalidCursor "Cursor is invalid")

/-- The payload is one the service encodes. -/
def Fits (payload : Json) : Prop := payload.dumps.length ≤ maxCursorBytes

theorem encodeCursor_ok {payload : Json} {cursor : String} :
    encodeCursor payload = .ok cursor ↔
      Fits payload ∧ cursor = String.ofList (base64Encode payload.encode) := by
  unfold encodeCursor Fits
  rw [← payload.length_encode]
  constructor
  · intro h
    obtain ⟨_, hsize, h⟩ := ok_bind h
    exact ⟨of_decide_eq_true (ensure_ok.mp hsize), ok_pure h⟩
  · rintro ⟨hsize, rfl⟩
    dsimp only
    rw [(ensure_ok (u := ())).mpr (decide_eq_true hsize)]
    rfl

theorem decodeCursor_encodeCursor {fields : List (String × Json)} {cursor : String}
    (hs : (Json.obj fields).Sorted) (h : encodeCursor (.obj fields) = .ok cursor) :
    decodeCursor cursor = .ok fields := by
  obtain ⟨hfits, rfl⟩ := encodeCursor_ok.mp h
  have hsize : (Json.obj fields).encode.length ≤ maxCursorBytes :=
    (Json.length_encode _).trans_le hfits
  have hlength := length_base64Encode (Json.obj fields).encode
  have hpos : 0 < (Json.obj fields).encode.length := by
    rw [Json.length_encode]
    cases fields <;> simp [Json.dumps]
  have hread : readPayload (String.ofList (base64Encode (Json.obj fields).encode)) =
      some (.obj fields) := by
    unfold readPayload
    rw [String.toList_ofList, base64Decode_encode]
    change (if _ then _ else _) = _
    rw [if_pos hsize, Json.decode_encode hs]
  unfold decodeCursor
  rw [String.toList_ofList, hread]
  have hok : (!(base64Encode (Json.obj fields).encode).isEmpty &&
      decide ((base64Encode (Json.obj fields).encode).length ≤ maxCursorLength) &&
      (base64Encode (Json.obj fields).encode).all fun c => (sextetVal c).isSome) = true := by
    rw [Bool.and_eq_true, Bool.and_eq_true, Bool.not_eq_true', List.isEmpty_eq_false_iff_exists_mem]
    refine ⟨⟨List.length_pos_iff_exists_mem.mp (by omega), decide_eq_true ?_⟩,
      List.all_eq_true.mpr fun c hc => sextetVal_of_mem hc⟩
    unfold maxCursorBytes at hsize
    unfold maxCursorLength
    omega
  rw [(ensure_ok (u := ())).mpr hok]
  rfl

/-- No cursor the service emits is empty. -/
theorem encodeCursor_ne_empty {fields : List (String × Json)} {cursor : String}
    (hs : (Json.obj fields).Sorted) (h : encodeCursor (.obj fields) = .ok cursor) :
    cursor ≠ "" := by
  rintro rfl
  have hread := decodeCursor_encodeCursor hs h
  cases hread

/-- `if cursor:`. A missing or empty cursor stands for the first page. -/
def readCursor {α : Type} (read : String → Except Err α) (cursor : Option String) :
    Except Err (Option α) :=
  match cursor with
  | none => .ok none
  | some text => if text = "" then .ok none else (read text).map some

theorem readCursor_some {α : Type} {read : String → Except Err α} {c : String} {a : α}
    (hne : c ≠ "") (h : read c = .ok a) : readCursor read (some c) = .ok (some a) := by
  unfold readCursor
  dsimp only
  rw [if_neg hne, h]
  rfl

/-! ## Values -/

def jsonDate (d : Option CivilDate) : Json := d.elim .null fun d => .str d.isoformat

def jsonText (s : Option String) : Json := s.elim .null .str

/-- Equal to the number 1 in the language: `True` is. -/
def isOne : Option Json → Bool
  | some (.int n) => n == 1
  | some (.bool b) => b
  | _ => false

/-- `date.fromisoformat(value)`, which raises on what is no text. -/
def asDate : Option Json → Option CivilDate
  | some (.str s) => CivilDate.fromisoformat s
  | _ => none

/-- `UUID(value)`. -/
def asUuid : Option Json → Option Uuid128
  | some (.str s) => Uuid128.ofText s
  | _ => none

/-- `datetime.fromisoformat(value)` with a zone. -/
def asTime : Option Json → Option UtcTime
  | some (.str s) =>
    match UtcTime.fromisoformat s with
    | some (t, true) => some t
    | _ => none
  | _ => none

@[simp] theorem asDate_isoformat (d : CivilDate) : asDate (some (.str d.isoformat)) = some d :=
  d.fromisoformat_isoformat

@[simp] theorem asUuid_text (id : Uuid128) : asUuid (some (.str id.text)) = some id :=
  id.ofText_text

@[simp] theorem asTime_isoformat (t : UtcTime) : asTime (some (.str t.isoformat)) = some t := by
  simp only [asTime, t.fromisoformat_isoformat]

/-! ## The form and the length of a payload -/

theorem sorted_obj {fields : List (String × Json)} {k : List String}
    (h : fields.map (·.1) = k) (hkeys : k.Pairwise fun k l => k.toList < l.toList)
    (hvalues : SortedFields fields) : (Json.obj fields).Sorted := by
  subst h
  exact ⟨(List.pairwise_map.mp hkeys).imp fun hlt => String.lt_iff_toList_lt.mpr hlt, hvalues⟩

@[simp] theorem sorted_str (s : String) : (Json.str s).Sorted := by
  unfold Json.Sorted
  trivial

@[simp] theorem sorted_int (n : Int) : (Json.int n).Sorted := by
  unfold Json.Sorted
  trivial

@[simp] theorem sorted_jsonDate (d : Option CivilDate) : (jsonDate d).Sorted := by
  cases d with
  | none => unfold jsonDate Json.Sorted; trivial
  | some d => exact sorted_str _

@[simp] theorem sorted_jsonText (s : Option String) : (jsonText s).Sorted := by
  cases s with
  | none => unfold jsonText Json.Sorted; trivial
  | some s => exact sorted_str s

theorem sorted_texts (xs : List String) : (Json.arr (xs.map .str)).Sorted := by
  unfold Json.Sorted
  induction xs with
  | nil => unfold SortedItems; trivial
  | cons x xs ih =>
    rw [List.map_cons, SortedItems]
    exact ⟨sorted_str x, ih⟩

theorem plain_date (d : CivilDate) : Plain d.isoChars := by
  have hnum := @plain_numeral 10 (by decide) (by decide)
  exact (hnum 4 _).append (Plain.cons (by decide) ((hnum 2 _).append (Plain.cons (by decide) (hnum 2 _))))

@[simp] theorem length_writeString_date (d : CivilDate) : (writeString d.isoformat).length = 12 := by
  unfold CivilDate.isoformat
  rw [length_writeString (plain_date d), d.length_isoChars]

theorem plain_time (t : UtcTime) : Plain t.isoChars := by
  have hnum := @plain_numeral 10 (by decide) (by decide)
  have hfraction : Plain (UtcTime.fraction t.micros) := by
    unfold UtcTime.fraction
    split
    · exact fun c hc => by cases hc
    · exact Plain.cons (by decide) (hnum 6 _)
  have hoffset : Plain ['+', '0', '0', ':', '0', '0'] := plain_of_all rfl
  exact (plain_date t.date).append (Plain.cons (by decide) ((hnum 2 _).append (Plain.cons (by decide)
    ((hnum 2 _).append (Plain.cons (by decide) ((hnum 2 _).append (hfraction.append hoffset)))))))

theorem length_writeString_time (t : UtcTime) : (writeString t.isoformat).length ≤ 34 := by
  unfold UtcTime.isoformat
  rw [length_writeString (plain_time t)]
  have hlen := t.length_isoChars_le
  omega

theorem plain_uuid (id : Uuid128) : Plain id.chars := by
  have hnum := @plain_numeral 16 (by decide) (by decide) 32 id.val
  have hsub : ∀ ds : List Char, ds ⊆ numeral 16 32 id.val → Plain ds := fun ds hds c hc =>
    hnum c (hds hc)
  exact (hsub _ (List.take_subset _ _)).append (Plain.cons (by decide)
    ((hsub _ fun c hc => List.mem_of_mem_drop (List.mem_of_mem_take hc)).append (Plain.cons (by decide)
      ((hsub _ fun c hc => List.mem_of_mem_drop (List.mem_of_mem_take hc)).append (Plain.cons (by decide)
        ((hsub _ fun c hc => List.mem_of_mem_drop (List.mem_of_mem_take hc)).append
          (Plain.cons (by decide) (hsub _ (List.drop_subset _ _)))))))))

@[simp] theorem length_writeString_uuid (id : Uuid128) : (writeString id.text).length = 38 := by
  unfold Uuid128.text
  rw [length_writeString (plain_uuid id), id.length_chars]

/-! ## A page -/

structure CursorPaginationInfo where
  pageSize : Nat
  nextCursor : Option String
deriving DecidableEq

structure ListResponse (ρ : Type) where
  data : List ρ
  pagination : CursorPaginationInfo
deriving DecidableEq

/-- The page of the rows that were fetched, `payload` being what its last row is
encoded as. -/
def respond {ρ : Type} (pageSize : Nat) (payload : ρ → Json) (rows : List ρ) :
    Except Err (ListResponse ρ) := do
  let (data, last) := cut pageSize rows
  let nextCursor ←
    match last with
    | none => pure none
    | some row => do
      let cursor ← encodeCursor (payload row)
      pure (some cursor)
  return { data, pagination := { pageSize, nextCursor } }

section Respond
variable {ρ κ : Type} [LinearOrder κ] {key : ρ → κ} {payload : ρ → Json} {rows selected : List ρ}
  {last : Option κ} {pageSize : Nat}

/-- A page holds the next rows and a cursor behind the last of them, unless its cursor
is too large. -/
theorem respond_page (hsize : 1 ≤ pageSize) (hkeys : (selected.map key).Nodup)
    (hsel : ∀ r, r ∈ selected ↔ r ∈ rows ∧ Behind key last r)
    (hfits : (∃ page, respond pageSize payload (orderLimit key selected (pageSize + 1)) = .ok page) ∨
      ∀ r, Fits (payload r)) :
    ∃ page row, respond pageSize payload (orderLimit key selected (pageSize + 1)) = .ok page ∧
      page.pagination.pageSize = pageSize ∧ IsPage key rows last pageSize page.data row ∧
      ((page.pagination.nextCursor = none ∧ row = none) ∨
        ∃ c r, page.pagination.nextCursor = some c ∧ row = some r ∧
          encodeCursor (payload r) = .ok c) := by
  have hpage := isPage_cut hsize hkeys hsel
  unfold respond at hfits ⊢
  generalize cut pageSize (orderLimit key selected (pageSize + 1)) = p at hpage hfits ⊢
  obtain ⟨data, row⟩ := p
  cases row with
  | none => exact ⟨_, none, rfl, rfl, hpage, Or.inl ⟨rfl, rfl⟩⟩
  | some r =>
    have hr : Fits (payload r) := by
      rcases hfits with ⟨page, h⟩ | hall
      · dsimp only at h
        cases hcursor : encodeCursor (payload r) with
        | error e =>
          rw [hcursor] at h
          cases h
        | ok cursor => exact (encodeCursor_ok.mp hcursor).1
      · exact hall r
    have hcursor : encodeCursor (payload r) = .ok _ := encodeCursor_ok.mpr ⟨hr, rfl⟩
    refine ⟨⟨data, pageSize, some _⟩, some r, ?_, rfl, hpage, Or.inr ⟨_, r, rfl, rfl, hcursor⟩⟩
    dsimp only
    rw [hcursor]
    rfl

end Respond

end FinDB.Serve
