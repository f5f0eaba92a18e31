import FinDB.Lib.Base64
import FinDB.Lib.Document

/-! # The text of a durable provider response

`encode` and `decode` of `durable_response`: bytes inside a response are marked in
band, dataclasses and tuples are flattened, and each type is rebuilt its own way.
A dictionary is its fields in key order, so that equal dictionaries are equal values. -/
namespace FinDB.Fetcher.Durable
open FinDB.Lib

/-! ## Values -/

inductive Value (F : Type) where
  | none
  | bool (b : Bool)
  | int (n : Int)
  | float (x : F)
  | str (s : String)
  | bytes (raw : List UInt8)
  | list (items : List (Value F))
  | tuple (items : List (Value F))
  | dict (fields : List (String × Value F))
deriving Repr

variable {F : Type}

namespace Value

/-- `type(value).__name__`. -/
def kind : Value F → String
  | .none => "NoneType"
  | .bool _ => "bool"
  | .int _ => "int"
  | .float _ => "float"
  | .str _ => "str"
  | .bytes _ => "bytes"
  | .list _ => "list"
  | .tuple _ => "tuple"
  | .dict _ => "dict"

/-- `value[key]`. -/
def get (key : String) : Value F → Option (Value F)
  | .dict fields => (fields.find? fun f => f.1 == key).map (·.2)
  | _ => Option.none

/-- What `tuple(value)` iterates over. -/
def iterate : Value F → Option (List (Value F))
  | .list items | .tuple items => some items
  | .str s => some (s.toList.map fun c => .str (String.singleton c))
  | .bytes raw => some (raw.map fun b => .int b.toNat)
  | .dict fields => some (fields.map fun f => .str f.1)
  | _ => Option.none

def pair (v : Value F) : Option (String × Value F) :=
  match v.iterate with
  | some [.str key, value] => some (key, value)
  | _ => Option.none

/-- `dict(value)`. -/
def toDict : Value F → Option (List (String × Value F))
  | .dict fields => some fields
  | v => do
    let items ← v.iterate
    return dictionary (← items.mapM pair)

/-- `base64.b64decode(value, validate=True)`. -/
def b64decode : Value F → Option (List UInt8)
  | .str s => Lib.b64decode s.toList
  | .bytes raw => Lib.b64decode (raw.map fun b => Char.ofNat b.toNat)
  | _ => Option.none

end Value

/-! ## Packing -/

def marker : String := "__bytes__"

mutual

/-- `pack`, as the document `json.dumps` writes. An integer that is too long has no text. -/
def pack : Value F → Option (Document (Scalar F))
  | .none => some (.atom .null)
  | .bool b => some (.atom (.bool b))
  | .int n => if h : Short n then some (.atom (.int ⟨n, h⟩)) else Option.none
  | .float x => some (.atom (.float x))
  | .str s => some (.str s)
  | .bytes raw => some (.obj [(marker, .str (String.ofList (b64encode raw)))])
  | .list items => (packItems items).map .arr
  | .tuple items => (packItems items).map .arr
  | .dict fields => (packFields fields).map .obj

def packItems : List (Value F) → Option (List (Document (Scalar F)))
  | [] => some []
  | v :: vs => do
    let d ← pack v
    let ds ← packItems vs
    return d :: ds

def packFields : List (String × Value F) → Option (List (String × Document (Scalar F)))
  | [] => some []
  | (key, v) :: fields => do
    let d ← pack v
    let ds ← packFields fields
    return (key, d) :: ds

end

/-- `base64.b64decode(item["__bytes__"], validate=True)`. -/
def unmark : List (String × Document (Scalar F)) → Option (Value F)
  | [(_, .str text)] => (b64decode text.toList).map .bytes
  | _ => Option.none

mutual

def unpack : Document (Scalar F) → Option (Value F)
  | .atom .null => some .none
  | .atom (.bool b) => some (.bool b)
  | .atom (.int n) => some (.int n)
  | .atom (.float x) => some (.float x)
  | .str s => some (.str s)
  | .arr items => (unpackItems items).map .list
  | .obj fields =>
    if fields.map (·.1) = [marker] then unmark fields else (unpackFields fields).map .dict

def unpackItems : List (Document (Scalar F)) → Option (List (Value F))
  | [] => some []
  | d :: ds => do
    let v ← unpack d
    let vs ← unpackItems ds
    return v :: vs

def unpackFields : List (String × Document (Scalar F)) → Option (List (String × Value F))
  | [] => some []
  | (key, d) :: fields => do
    let v ← unpack d
    let vs ← unpackFields fields
    return (key, v) :: vs

end

/-! ## Responses -/

structure TwelveDataResponse (F : Type) where
  payload : List (String × Value F)
  rawBytes : List UInt8

structure FinLabDatasetTable (F : Type) where
  dates : List (Value F)
  symbols : List (Value F)
  values : List (List (Value F))

structure ShioajiKbarsSnapshot (F : Type) where
  kbars : List (String × List (Value F))
  usageBytesBefore : Value F
  usageBytesAfter : Value F
  requestsBefore : Value F := .int 0
  requestsAfter : Value F := .int 1

inductive Response (F : Type) where
  | value (v : Value F)
  | twelveData (r : TwelveDataResponse F)
  | finLab (r : FinLabDatasetTable F)
  | shioajiKbars (r : ShioajiKbarsSnapshot F)

/-- `asdict`. -/
def FinLabDatasetTable.asdict (r : FinLabDatasetTable F) : Value F :=
  .dict [("dates", .tuple r.dates), ("symbols", .tuple r.symbols),
    ("values", .tuple (r.values.map .tuple))]

def ShioajiKbarsSnapshot.columns (r : ShioajiKbarsSnapshot F) : List (String × Value F) :=
  r.kbars.map fun f => (f.1, .tuple f.2)

/-- `asdict`. -/
def ShioajiKbarsSnapshot.asdict (r : ShioajiKbarsSnapshot F) : Value F :=
  .dict [("kbars", .dict r.columns),
    ("requests_after", r.requestsAfter), ("requests_before", r.requestsBefore),
    ("usage_bytes_after", r.usageBytesAfter), ("usage_bytes_before", r.usageBytesBefore)]

namespace Response

/-- `type(value).__name__`. -/
def kind : Response F → String
  | .value v => v.kind
  | .twelveData _ => "TwelveDataResponse"
  | .finLab _ => "FinLabDatasetTable"
  | .shioajiKbars _ => "ShioajiKbarsSnapshot"

/-- What `encode` packs. -/
def data : Response F → Value F
  | .value (.bytes raw) => .str (String.ofList (b64encode raw))
  | .value v => v
  | .twelveData r =>
    .dict [("payload", .dict r.payload), ("raw_bytes", .str (String.ofList (b64encode r.rawBytes)))]
  | .finLab r => r.asdict
  | .shioajiKbars r => r.asdict

def encode (T : FloatText F) (r : Response F) : Option (List UInt8) := do
  let data ← pack r.data
  return (Document.obj [("data", data), ("type", .str r.kind)]).encode (Scalar.atoms T)

end Response

/-- `TwelveDataResponse(data["payload"], raw_bytes=...)`. -/
def restoreTwelveData (data : Value F) : Option (TwelveDataResponse F) := do
  let payload ← (← data.get "payload").toDict
  let rawBytes ← (← data.get "raw_bytes").b64decode
  return ⟨payload, rawBytes⟩

def restoreFinLab (data : Value F) : Option (FinLabDatasetTable F) := do
  let dates ← (← data.get "dates").iterate
  let symbols ← (← data.get "symbols").iterate
  let values ← (← (← data.get "values").iterate).mapM Value.iterate
  return ⟨dates, symbols, values⟩

def kbarsFields : List String :=
  ["kbars", "requests_after", "requests_before", "usage_bytes_after", "usage_bytes_before"]

/-- `ShioajiKbarsSnapshot(**{**data, "kbars": ...})`. -/
def restoreShioajiKbars : Value F → Option (ShioajiKbarsSnapshot F)
  | .dict fields => do
    let .dict kbars ← (Value.dict fields).get "kbars" | Option.none
    let kbars ← kbars.mapM fun f => f.2.iterate.map (f.1, ·)
    if fields.all (kbarsFields.contains ·.1) then do
      let before ← (Value.dict fields).get "usage_bytes_before"
      let after ← (Value.dict fields).get "usage_bytes_after"
      return {
        kbars, usageBytesBefore := before, usageBytesAfter := after,
        requestsBefore := ((Value.dict fields).get "requests_before").getD (.int 0),
        requestsAfter := ((Value.dict fields).get "requests_after").getD (.int 1) }
    else Option.none
  | _ => Option.none

/-- The response of a kind. A kind without one is not supported. -/
def restore (kind : String) (data : Value F) : Option (Response F) :=
  if kind = "bytes" then data.b64decode.map (.value <| .bytes ·)
  else if kind = "TwelveDataResponse" then (restoreTwelveData data).map .twelveData
  else if kind = "FinLabDatasetTable" then (restoreFinLab data).map .finLab
  else if kind = "ShioajiKbarsSnapshot" then (restoreShioajiKbars data).map .shioajiKbars
  else if kind = "dict" ∨ kind = "list" then some (.value data)
  else if kind = "tuple" then data.iterate.map (.value <| .tuple ·)
  else Option.none

def decode (T : FloatText F) (saved : List UInt8) : Option (Response F) := do
  let snapshot ← unpack (← Document.decode (Scalar.atoms T) saved)
  let .str kind ← snapshot.get "type" | Option.none
  restore kind (← snapshot.get "data")

/-! ## What comes back of a value -/

section Mapping
variable {α β γ : Type} {f : α → Option β}

theorem mapM_cons_eq {x : α} {xs : List α} {y : β} {ys : List β} :
    (x :: xs).mapM f = some (y :: ys) ↔ f x = some y ∧ xs.mapM f = some ys := by
  rw [List.mapM_cons]
  cases f x <;> cases xs.mapM f <;> simp

/-- Two partial maps one after the other. -/
theorem mapM_bind (g : β → Option γ) (xs : List α) :
    (xs.mapM f).bind (·.mapM g) = xs.mapM fun x => (f x).bind g := by
  induction xs with
  | nil => rfl
  | cons x xs ih =>
    rw [List.mapM_cons, List.mapM_cons, ← ih]
    cases f x with
    | none => rfl
    | some y =>
      cases xs.mapM f with
      | none => cases h : g y <;> simp [h]
      | some ys => simp

theorem mapM_self_iff {f : α → Option α} {xs : List α} :
    xs.mapM f = some xs ↔ ∀ x ∈ xs, f x = some x := by
  induction xs with
  | nil => simp
  | cons x xs ih => rw [mapM_cons_eq, ih, List.forall_mem_cons]

end Mapping

/-- What is unpacked of a packed value. -/
def copy (v : Value F) : Option (Value F) := (pack v).bind unpack

theorem packItems_eq (vs : List (Value F)) : packItems vs = vs.mapM pack := by
  induction vs with
  | nil => rfl
  | cons v vs ih => rw [packItems, List.mapM_cons, ih]

theorem unpackItems_eq (ds : List (Document (Scalar F))) : unpackItems ds = ds.mapM unpack := by
  induction ds with
  | nil => rfl
  | cons d ds ih => rw [unpackItems, List.mapM_cons, ih]

theorem packFields_eq (fs : List (String × Value F)) :
    packFields fs = fs.mapM fun f => (pack f.2).map (f.1, ·) := by
  induction fs with
  | nil => rfl
  | cons f fs ih =>
    rw [packFields, List.mapM_cons, ih]
    cases pack f.2 <;> rfl

theorem unpackFields_eq (ds : List (String × Document (Scalar F))) :
    unpackFields ds = ds.mapM fun f => (unpack f.2).map (f.1, ·) := by
  induction ds with
  | nil => rfl
  | cons f ds ih =>
    rw [unpackFields, List.mapM_cons, ih]
    cases unpack f.2 <;> rfl

/-- Packing leaves the keys. -/
theorem keys_packFields {fs : List (String × Value F)} {ds : List (String × Document (Scalar F))}
    (h : packFields fs = some ds) : ds.map (·.1) = fs.map (·.1) := by
  induction fs generalizing ds with
  | nil => cases h; rfl
  | cons f fs ih =>
    rw [packFields_eq, List.mapM_cons, ← packFields_eq] at h
    simp only [Option.pure_def, Option.bind_eq_bind, Option.bind_eq_some_iff, Option.map_eq_some_iff,
      Option.some.injEq] at h
    obtain ⟨_, ⟨d, _, rfl⟩, rest, hrest, rfl⟩ := h
    rw [List.map_cons, List.map_cons, ih hrest]

@[simp] theorem copy_str (s : String) : copy (.str s : Value F) = some (.str s) := rfl

@[simp] theorem copy_bytes (raw : List UInt8) : copy (.bytes raw : Value F) = some (.bytes raw) := by
  simp [copy, pack, unpack, unmark, b64decode_encode]

theorem copy_int (n : Int) : copy (.int n : Value F) = some (.int n) ↔ Short n := by
  unfold copy pack
  split_ifs with h <;> simp [unpack, h]

/-- Lists and tuples come back as lists. -/
theorem copy_items (vs : List (Value F)) :
    ((packItems vs).map .arr).bind unpack = (vs.mapM copy).map .list := by
  have hcopy := mapM_bind (f := pack) unpack vs
  rw [← packItems_eq] at hcopy
  unfold copy
  rw [← hcopy]
  cases packItems vs with
  | none => rfl
  | some ds => rw [Option.map_some, Option.bind_some, unpack, unpackItems_eq, Option.bind_some]

theorem copy_list (vs : List (Value F)) : copy (.list vs) = (vs.mapM copy).map .list := by
  rw [copy, pack, copy_items]

theorem copy_tuple (vs : List (Value F)) : copy (.tuple vs) = (vs.mapM copy).map .list := by
  rw [copy, pack, copy_items]

/-- The copy of one field. -/
def copyField (f : String × Value F) : Option (String × Value F) := (copy f.2).map (f.1, ·)

theorem copy_dict {fs : List (String × Value F)} (h : fs.map (·.1) ≠ [marker]) :
    copy (.dict fs) = (fs.mapM copyField).map .dict := by
  have hcopy := mapM_bind (f := fun f : String × Value F => (pack f.2).map (f.1, ·))
    (fun f => (unpack f.2).map (f.1, ·)) fs
  have hfield : (fun f : String × Value F => ((pack f.2).map (f.1, ·)).bind fun f =>
      (unpack f.2).map (f.1, ·)) = copyField := by
    funext f
    unfold copyField copy
    cases pack f.2 <;> rfl
  rw [hfield, ← packFields_eq] at hcopy
  rw [← hcopy, copy, pack]
  cases hds : packFields fs with
  | none => rfl
  | some ds =>
    rw [Option.map_some, Option.bind_some, unpack, if_neg (by rwa [keys_packFields hds]),
      unpackFields_eq, Option.bind_some]

/-- A dictionary with the marker alone comes back as bytes, or not at all. -/
theorem copy_marked {fs : List (String × Value F)} (h : fs.map (·.1) = [marker]) {v : Value F}
    (hcopy : copy (.dict fs) = some v) : ∃ raw, v = .bytes raw := by
  rw [copy, pack] at hcopy
  cases hds : packFields fs with
  | none => rw [hds] at hcopy; cases hcopy
  | some ds =>
    rw [hds, Option.map_some, Option.bind_some, unpack, if_pos (by rw [keys_packFields hds, h])]
      at hcopy
    unfold unmark at hcopy
    split at hcopy
    · obtain ⟨raw, _, rfl⟩ := Option.map_eq_some_iff.mp hcopy
      exact ⟨raw, rfl⟩
    · cases hcopy

mutual

/-- Values that come back as they are: no tuple, no dictionary with the marker alone, and no
integer without a text. -/
def Value.Plain : Value F → Prop
  | .int n => Short n
  | .list items => PlainItems items
  | .tuple _ => False
  | .dict fields => fields.map (·.1) ≠ [marker] ∧ PlainFields fields
  | _ => True

def PlainItems : List (Value F) → Prop
  | [] => True
  | v :: vs => v.Plain ∧ PlainItems vs

def PlainFields : List (String × Value F) → Prop
  | [] => True
  | (_, v) :: fields => v.Plain ∧ PlainFields fields

end

mutual

theorem copy_iff : ∀ v : Value F, copy v = some v ↔ v.Plain
  | .none => by simp [copy, pack, unpack, Value.Plain]
  | .bool b => by simp [copy, pack, unpack, Value.Plain]
  | .int n => copy_int n
  | .float x => by simp [copy, pack, unpack, Value.Plain]
  | .str s => by simp [Value.Plain]
  | .bytes raw => by simp [Value.Plain]
  | .list vs => by
    rw [copy_list, Value.Plain, ← copyItems_iff vs]
    simp
  | .tuple vs => by simp [copy_tuple, Value.Plain]
  | .dict fs => by
    by_cases h : fs.map (·.1) = [marker]
    · refine iff_of_false (fun hcopy => ?_) fun hplain => hplain.1 h
      obtain ⟨raw, hraw⟩ := copy_marked h hcopy
      cases hraw
    · rw [copy_dict h, Value.Plain, ← copyFields_iff fs]
      simp [h]

theorem copyItems_iff : ∀ vs : List (Value F), vs.mapM copy = some vs ↔ PlainItems vs
  | [] => iff_of_true rfl trivial
  | v :: vs => by rw [mapM_cons_eq, PlainItems, copy_iff v, copyItems_iff vs]

theorem copyFields_iff : ∀ fs : List (String × Value F), fs.mapM copyField = some fs ↔ PlainFields fs
  | [] => iff_of_true rfl trivial
  | (k, v) :: fs => by
    rw [mapM_cons_eq, PlainFields, ← copy_iff v, copyFields_iff fs]
    simp [copyField]

end

/-! ## What comes back of a response -/

mutual

/-- Every dictionary has its fields in key order. -/
def Value.Sorted : Value F → Prop
  | .list items | .tuple items => SortedItems items
  | .dict fields => fields.Pairwise (·.1 < ·.1) ∧ SortedFields fields
  | _ => True

def SortedItems : List (Value F) → Prop
  | [] => True
  | v :: vs => v.Sorted ∧ SortedItems vs

def SortedFields : List (String × Value F) → Prop
  | [] => True
  | (_, v) :: fields => v.Sorted ∧ SortedFields fields

end

theorem pairwise_keys {V W : Type} {fs : List (String × V)} {gs : List (String × W)}
    (h : gs.map (·.1) = fs.map (·.1)) (hfs : fs.Pairwise (·.1 < ·.1)) : gs.Pairwise (·.1 < ·.1) := by
  rw [← List.pairwise_map (f := fun f : String × V => f.1) (R := (· < ·))] at hfs
  rw [← List.pairwise_map (f := fun g : String × W => g.1) (R := (· < ·)), h]
  exact hfs

mutual

theorem sorted_pack : ∀ (v : Value F) {d}, v.Sorted → pack v = some d → d.Sorted
  | .none, _, _, h | .bool _, _, _, h | .float _, _, _, h | .str _, _, _, h => by
    cases h
    trivial
  | .int n, _, _, h => by
    rw [pack] at h
    split_ifs at h
    cases h
    exact True.intro
  | .bytes raw, _, _, h => by
    cases h
    exact ⟨List.pairwise_singleton _ _, trivial, trivial⟩
  | .list vs, _, hs, h | .tuple vs, _, hs, h => by
    obtain ⟨ds, hds, rfl⟩ := Option.map_eq_some_iff.mp h
    exact sorted_packItems vs hs hds
  | .dict fs, _, hs, h => by
    obtain ⟨ds, hds, rfl⟩ := Option.map_eq_some_iff.mp h
    exact ⟨pairwise_keys (keys_packFields hds) hs.1, sorted_packFields fs hs.2 hds⟩

theorem sorted_packItems : ∀ (vs : List (Value F)) {ds}, SortedItems vs → packItems vs = some ds →
    Document.SortedItems ds
  | [], _, _, h => by
    cases h
    trivial
  | v :: vs, _, hs, h => by
    simp only [packItems, Option.pure_def, Option.bind_eq_bind, Option.bind_eq_some_iff,
      Option.some.injEq] at h
    obtain ⟨d, hd, ds, hds, rfl⟩ := h
    exact ⟨sorted_pack v hs.1 hd, sorted_packItems vs hs.2 hds⟩

theorem sorted_packFields : ∀ (fs : List (String × Value F)) {ds}, SortedFields fs →
    packFields fs = some ds → Document.SortedFields ds
  | [], _, _, h => by
    cases h
    trivial
  | (k, v) :: fs, _, hs, h => by
    simp only [packFields, Option.pure_def, Option.bind_eq_bind, Option.bind_eq_some_iff,
      Option.some.injEq] at h
    obtain ⟨d, hd, ds, hds, rfl⟩ := h
    exact ⟨sorted_pack v hs.1 hd, sorted_packFields fs hs.2 hds⟩

end

def Response.Sorted (r : Response F) : Prop := r.data.Sorted

/-- The stored text is read as the copy of what was packed. -/
theorem decode_encode (T : FloatText F) {r : Response F} (h : r.Sorted) :
    (r.encode T).bind (decode T) = (copy r.data).bind (restore r.kind) := by
  unfold Response.encode copy
  cases hd : pack r.data with
  | none => rfl
  | some d =>
    have hsorted : (Document.obj [("data", d), ("type", .str r.kind)]).Sorted := by
      refine ⟨?_, sorted_pack _ h hd, trivial, trivial⟩
      rw [List.pairwise_pair]
      change "data" < "type"
      decide
    have hdecode := Document.decode_encode (Scalar.atoms T) hsorted
    change decode T _ = _
    rw [decode, hdecode]
    change (unpack (Document.obj [("data", d), ("type", .str r.kind)])).bind _ = _
    rw [unpack, if_neg (by simp), unpackFields_eq]
    cases hu : unpack d with
    | none => simp [hu]
    | some u => simp [hu, unpack, Value.get]

/-- Responses that come back as they are. The kinds without a case in `restore` never do. -/
def Response.Faithful : Response F → Prop
  | .value (.bytes _) => True
  | .value (.list items) | .value (.tuple items) => PlainItems items
  | .value (.dict fields) => (Value.dict fields).Plain
  | .value _ => False
  | .twelveData r => (Value.dict r.payload).Plain
  | .finLab r => PlainItems r.dates ∧ PlainItems r.symbols ∧ ∀ row ∈ r.values, PlainItems row
  | .shioajiKbars r =>
    r.kbars.map (·.1) ≠ [marker] ∧ (∀ f ∈ r.kbars, PlainItems f.2) ∧
      r.requestsAfter.Plain ∧ r.requestsBefore.Plain ∧
      r.usageBytesAfter.Plain ∧ r.usageBytesBefore.Plain

theorem b64decode_text (raw : List UInt8) :
    (Value.str (String.ofList (b64encode raw)) : Value F).b64decode = some raw := by
  change Lib.b64decode (String.ofList (b64encode raw)).toList = _
  rw [String.toList_ofList, b64decode_encode]

/-! ### Values -/

theorem restore_bytes : (restore "bytes" : Value F → _) = fun data =>
    data.b64decode.map (.value <| .bytes ·) := rfl

theorem restore_dict : (restore "dict" : Value F → _) = fun data => some (.value data) := rfl

theorem restore_list : (restore "list" : Value F → _) = fun data => some (.value data) := rfl

theorem restore_tuple : (restore "tuple" : Value F → _) = fun data =>
    data.iterate.map (.value <| .tuple ·) := rfl

theorem restore_other {kind : String}
    (h : kind ∉ ["bytes", "dict", "list", "tuple", "TwelveDataResponse", "FinLabDatasetTable",
      "ShioajiKbarsSnapshot"]) : (restore kind : Value F → _) = fun _ => none := by
  simp only [List.mem_cons, List.not_mem_nil, or_false, not_or] at h
  funext data
  simp [restore, h]

theorem restore_value (v : Value F) :
    (copy (Response.value v).data).bind (restore v.kind) = some (.value v) ↔
      (Response.value v).Faithful := by
  cases v with
  | bytes raw =>
    refine iff_of_true ?_ trivial
    rw [Response.data, copy_str, Option.bind_some, Value.kind, restore_bytes]
    dsimp only
    rw [b64decode_text, Option.map_some]
  | dict fields =>
    rw [Response.data, Value.kind, restore_dict, Response.Faithful, ← copy_iff]
    · cases copy (.dict fields) <;> simp
    · simp
  | list items =>
    rw [Response.data, Value.kind, restore_list, Response.Faithful, copy_list, ← copyItems_iff]
    · cases items.mapM copy <;> simp
    · simp
  | tuple items =>
    rw [Response.data, Value.kind, restore_tuple, Response.Faithful, copy_tuple, ← copyItems_iff]
    · cases items.mapM copy <;> simp [Value.iterate]
    · simp
  | _ =>
    rw [Value.kind, restore_other (by simp)]
    refine iff_of_false (fun h => ?_) id
    obtain ⟨_, _, h⟩ := Option.bind_eq_some_iff.mp h
    cases h
/-! ### Twelve Data -/

theorem restoreTwelveData_eq (r : TwelveDataResponse F) (u : Value F) :
    restore "TwelveDataResponse"
      (.dict [("payload", u), ("raw_bytes", .str (String.ofList (b64encode r.rawBytes)))]) =
        u.toDict.map fun payload => .twelveData ⟨payload, r.rawBytes⟩ := by
  change (Option.bind u.toDict fun payload => Option.bind
    (Value.str (String.ofList (b64encode r.rawBytes))).b64decode fun raw =>
      some (TwelveDataResponse.mk payload raw)).map _ = _
  rw [b64decode_text]
  cases u.toDict <;> rfl

theorem copy_twelveData (r : TwelveDataResponse F) :
    (copy (Response.twelveData r).data).bind (restore "TwelveDataResponse") =
      (copy (.dict r.payload)).bind fun u =>
        u.toDict.map fun payload => .twelveData ⟨payload, r.rawBytes⟩ := by
  rw [Response.data, copy_dict (by simp), List.mapM_cons, copyField]
  cases copy (.dict r.payload) with
  | none => rfl
  | some u => exact restoreTwelveData_eq r u

theorem restore_twelveData (r : TwelveDataResponse F) :
    (copy (Response.twelveData r).data).bind (restore "TwelveDataResponse") = some (.twelveData r) ↔
      (Response.twelveData r).Faithful := by
  rw [copy_twelveData, Response.Faithful, ← copy_iff]
  constructor
  · intro h
    obtain ⟨u, hu, h⟩ := Option.bind_eq_some_iff.mp h
    obtain ⟨payload, hpayload, h⟩ := Option.map_eq_some_iff.mp h
    have hr : payload = r.payload := by
      rw [← Response.twelveData.inj h]
    subst hr
    by_cases hkeys : r.payload.map (·.1) = [marker]
    · obtain ⟨raw, rfl⟩ := copy_marked hkeys hu
      cases raw with
      | nil =>
        rw [← Option.some.inj hpayload] at hkeys
        cases hkeys
      | cons b raw => cases hpayload
    · have hdict := copy_dict hkeys
      rw [hu] at hdict
      obtain ⟨fields, _, rfl⟩ := Option.map_eq_some_iff.mp hdict.symm
      rw [hu]
      exact congrArg (some <| Value.dict ·) (Option.some.inj hpayload)
  · intro h
    rw [h]
    rfl

/-! ### FinLab -/

/-- A tuple of copies, through the list it comes back as. -/
theorem iterate_list : (fun vs : Option (List (Value F)) => (vs.map Value.list).bind Value.iterate) =
    id := by
  funext vs
  cases vs <;> rfl

theorem copy_rows (rows : List (List (Value F))) :
    ((rows.map Value.tuple).mapM copy).bind (·.mapM Value.iterate) =
      rows.mapM fun row => row.mapM copy := by
  have hrow : (fun row : List (Value F) => (copy (.tuple row)).bind Value.iterate) =
      fun row => row.mapM copy := by
    funext row
    rw [copy_tuple]
    exact congrFun iterate_list _
  rw [List.mapM_map]
  exact (mapM_bind (f := copy ∘ Value.tuple) Value.iterate rows).trans (congrArg (rows.mapM ·) hrow)

theorem restoreFinLab_eq (dates symbols values : List (Value F)) :
    restore "FinLabDatasetTable"
      (.dict [("dates", .list dates), ("symbols", .list symbols), ("values", .list values)]) =
        (values.mapM Value.iterate).bind fun values => some (.finLab ⟨dates, symbols, values⟩) := by
  change (Option.bind (values.mapM Value.iterate) fun values =>
    some (FinLabDatasetTable.mk dates symbols values)).map _ = _
  cases values.mapM Value.iterate <;> rfl

theorem copy_finLab (r : FinLabDatasetTable F) :
    (copy (Response.finLab r).data).bind (restore "FinLabDatasetTable") = do
      let dates ← r.dates.mapM copy
      let symbols ← r.symbols.mapM copy
      let values ← r.values.mapM fun row => row.mapM copy
      return .finLab ⟨dates, symbols, values⟩ := by
  rw [← copy_rows, Response.data, FinLabDatasetTable.asdict, copy_dict (by simp)]
  simp only [List.mapM_cons, copyField, copy_tuple]
  cases r.dates.mapM copy with
  | none => rfl
  | some dates =>
    cases r.symbols.mapM copy with
    | none => rfl
    | some symbols =>
      cases (r.values.map Value.tuple).mapM copy with
      | none => rfl
      | some values => exact restoreFinLab_eq dates symbols values

theorem restore_finLab (r : FinLabDatasetTable F) :
    (copy (Response.finLab r).data).bind (restore "FinLabDatasetTable") = some (.finLab r) ↔
      (Response.finLab r).Faithful := by
  rw [copy_finLab, Response.Faithful]
  simp only [← copyItems_iff]
  rw [← mapM_self_iff]
  constructor
  · intro h
    simp only [Option.pure_def, Option.bind_eq_bind, Option.bind_eq_some_iff] at h
    obtain ⟨dates, hdates, symbols, hsymbols, values, hvalues, h⟩ := h
    have hr := Response.finLab.inj (Option.some.inj h)
    subst hr
    exact ⟨hdates, hsymbols, hvalues⟩
  · rintro ⟨hdates, hsymbols, hvalues⟩
    rw [hdates, hsymbols, hvalues]
    rfl

/-! ### Shioaji -/

/-- The columns, as tuples again. -/
def restoreColumns (fields : List (String × Value F)) : Option (List (String × List (Value F))) :=
  fields.mapM fun f => f.2.iterate.map (f.1, ·)

/-- The snapshot around what came back as its bars. -/
def withColumns (after before usageAfter usageBefore : Value F) : Value F → Option (Response F)
  | .dict fields => (restoreColumns fields).map fun kbars =>
    .shioajiKbars ⟨kbars, usageBefore, usageAfter, before, after⟩
  | _ => none

theorem restoreShioajiKbars_eq (kbars after before usageAfter usageBefore : Value F) :
    restore "ShioajiKbarsSnapshot" (.dict [("kbars", kbars), ("requests_after", after),
      ("requests_before", before), ("usage_bytes_after", usageAfter),
      ("usage_bytes_before", usageBefore)]) =
        withColumns after before usageAfter usageBefore kbars := by
  cases kbars with
  | dict fields =>
    change (Option.bind (restoreColumns fields) fun kbars =>
      some (ShioajiKbarsSnapshot.mk kbars usageBefore usageAfter before after)).map _ =
        (restoreColumns fields).map _
    cases restoreColumns fields <;> rfl
  | _ => rfl

theorem ShioajiKbarsSnapshot.keys_columns (r : ShioajiKbarsSnapshot F) :
    r.columns.map (·.1) = r.kbars.map (·.1) := by
  rw [columns, List.map_map]
  rfl

theorem copy_columns (r : ShioajiKbarsSnapshot F) :
    (r.columns.mapM copyField).bind restoreColumns =
      r.kbars.mapM fun f => (f.2.mapM copy).map (f.1, ·) := by
  have hcolumn : (fun f : String × List (Value F) => (copyField (f.1, .tuple f.2)).bind
      fun g => g.2.iterate.map (g.1, ·)) = fun f => (f.2.mapM copy).map (f.1, ·) := by
    funext f
    rw [copyField, copy_tuple]
    cases f.2.mapM copy <;> rfl
  rw [ShioajiKbarsSnapshot.columns, List.mapM_map]
  exact (mapM_bind _ r.kbars).trans (congrArg (r.kbars.mapM ·) hcolumn)

theorem copy_shioajiKbars (r : ShioajiKbarsSnapshot F) :
    (copy (Response.shioajiKbars r).data).bind (restore "ShioajiKbarsSnapshot") = (do
      let kbars ← copy (.dict r.columns)
      let after ← copy r.requestsAfter
      let before ← copy r.requestsBefore
      let usageAfter ← copy r.usageBytesAfter
      let usageBefore ← copy r.usageBytesBefore
      withColumns after before usageAfter usageBefore kbars) := by
  rw [Response.data, ShioajiKbarsSnapshot.asdict, copy_dict (by simp)]
  simp only [List.mapM_cons, copyField]
  cases copy (.dict r.columns) with
  | none => rfl
  | some kbars =>
    cases copy r.requestsAfter with
    | none => rfl
    | some after =>
      cases copy r.requestsBefore with
      | none => rfl
      | some before =>
        cases copy r.usageBytesAfter with
        | none => rfl
        | some usageAfter =>
          cases copy r.usageBytesBefore with
          | none => rfl
          | some usageBefore =>
            exact restoreShioajiKbars_eq kbars after before usageAfter usageBefore

theorem copy_columns_iff {r : ShioajiKbarsSnapshot F} :
    ((r.columns.mapM copyField).bind restoreColumns = some r.kbars) ↔
      ∀ f ∈ r.kbars, PlainItems f.2 := by
  rw [copy_columns, mapM_self_iff]
  refine forall₂_congr fun f _ => ?_
  rw [← copyItems_iff]
  cases f.2.mapM copy <;> simp [Prod.ext_iff]

theorem restore_shioajiKbars (r : ShioajiKbarsSnapshot F) :
    (copy (Response.shioajiKbars r).data).bind (restore "ShioajiKbarsSnapshot") =
      some (.shioajiKbars r) ↔ (Response.shioajiKbars r).Faithful := by
  rw [copy_shioajiKbars, Response.Faithful, ← copy_columns_iff]
  simp only [← copy_iff]
  by_cases hkeys : r.kbars.map (·.1) = [marker]
  · refine iff_of_false (fun h => ?_) fun h => h.1 hkeys
    obtain ⟨kbars, hkbars, h⟩ := Option.bind_eq_some_iff.mp h
    obtain ⟨raw, rfl⟩ := copy_marked (by rw [r.keys_columns, hkeys]) hkbars
    simp [withColumns] at h
  · rw [copy_dict (by rwa [r.keys_columns])]
    constructor
    · intro h
      simp only [Option.bind_eq_bind, Option.bind_eq_some_iff, Option.map_eq_some_iff] at h
      obtain ⟨_, ⟨fields, hfields, rfl⟩, after, hafter, before, hbefore, usageAfter, husageAfter,
        usageBefore, husageBefore, h⟩ := h
      obtain ⟨kbars, hkbars, h⟩ := Option.map_eq_some_iff.mp h
      have hr := Response.shioajiKbars.inj h
      subst hr
      exact ⟨hkeys, by rw [hfields, Option.bind_some, hkbars], hafter, hbefore, husageAfter, husageBefore⟩
    · rintro ⟨_, hcolumns, hafter, hbefore, husageAfter, husageBefore⟩
      obtain ⟨fields, hfields, hkbars⟩ := Option.bind_eq_some_iff.mp hcolumns
      rw [hfields, hafter, hbefore, husageAfter, husageBefore]
      exact Option.map_eq_some_iff.mpr ⟨r.kbars, hkbars, rfl⟩

/-- **What replays.** The stored text of a response is read as that response just when the
response is faithful. -/
theorem decode_encode_iff (T : FloatText F) {r : Response F} (h : r.Sorted) :
    (r.encode T).bind (decode T) = some r ↔ r.Faithful := by
  rw [decode_encode T h]
  cases r with
  | value v => exact restore_value v
  | twelveData r => exact restore_twelveData r
  | finLab r => exact restore_finLab r
  | shioajiKbars r => exact restore_shioajiKbars r

end FinDB.Fetcher.Durable
