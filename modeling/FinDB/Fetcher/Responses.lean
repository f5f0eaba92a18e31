import FinDB.Fetcher.Durable

/-! # Calls through `durable_response`

The journal of one work and the calls that replay from it. A response row is
written once and never changed; a rejected one is only observed. -/
namespace FinDB.Fetcher.Durable
open FinDB.Lib

/-! ## The journal -/

/-- The platform: how floats are written, and `hashlib.sha256(raw).hexdigest()`. -/
structure Platform (F : Type) where
  float : FloatText F
  sha256 : List UInt8 → String

/-- A row of `work_response`. -/
structure ResponseRow where
  key : String
  body : List UInt8
  sha256 : String
deriving DecidableEq, Repr

/-- A row of `work_response_observation`. -/
structure Observation where
  key : String
  origin : String
  body : List UInt8
  sha256 : String
deriving DecidableEq, Repr

structure Journal where
  responses : List ResponseRow
  observations : List Observation
deriving DecidableEq, Repr

inductive Refusal where
  | checksumDiffers | basisMismatch
  /-- `decode` raised, or `json.dumps` did. -/
  | undecodable | unencodable
  /-- The guard or the native call raised, or the process stopped in it. -/
  | native
deriving DecidableEq, Repr

variable {F Arg : Type} (P : Platform F)

def Platform.row (key : String) (body : List UInt8) : ResponseRow := ⟨key, body, P.sha256 body⟩

namespace Journal
variable (j : Journal)

def find (key : String) : Option ResponseRow := j.responses.find? (·.key == key)

/-- `INSERT OR IGNORE INTO work_response`. -/
def insert (key : String) (body : List UInt8) : Journal :=
  if (j.find key).isSome then j else { j with responses := j.responses ++ [P.row key body] }

/-- `WorkJournal.response(key)`; with a body the row is inserted before. -/
def response (key : String) : Except Refusal (Option (List UInt8)) :=
  match j.find key with
  | none => .ok none
  | some row => if P.sha256 row.body = row.sha256 then .ok (some row.body) else .error .checksumDiffers

def observeResponse (key : String) (body : List UInt8) (origin : String) : Journal :=
  { j with observations := j.observations ++ [⟨key, origin, body, P.sha256 body⟩] }

def hasResponseObservation (key origin : String) : Bool :=
  j.observations.any fun o => o.key == key && o.origin == origin

/-- `record_incompatible_basis`. -/
def recordIncompatibleBasis (basis key : String) (body : List UInt8) : Journal :=
  let origin := "incompatible_basis:" ++ basis
  if j.hasResponseObservation key origin then j else j.observeResponse P key body origin

end Journal

/-! ## A decorated method and its calls -/

/-- The arguments of `durable_response`. `Arg` is the request identity, all that any target check
reads; `identity` is that dictionary as `json.dumps` writes it. -/
structure DurableResponse (F Arg : Type) where
  name : String
  identity : Arg → List (String × Document (Scalar F))
  targetValid : Option (Response F → Arg → Bool)
  basis : Option String

/-- A call, and what the guarded native method does when it is reached, given a rejected result. -/
structure Call (F Arg : Type) where
  method : DurableResponse F Arg
  arguments : Arg
  native : Option (Response F) → Option (Response F)

namespace Call
variable (c : Call F Arg)

def validated : Bool := c.method.targetValid.isSome

/-- `target_valid is None or target_valid(result, ...)`. -/
def valid (r : Response F) : Bool :=
  match c.method.targetValid with
  | none => true
  | some targetValid => targetValid r c.arguments

/-! The keys of `_response_keys`. -/

def base : String :=
  c.method.name ++ ":" ++
    P.sha256 ((Document.obj (c.method.identity c.arguments)).encode (Scalar.atoms P.float))

def legacyKey : String :=
  match c.method.basis with
  | none => c.base P
  | some basis => c.base P ++ ":" ++ basis

def key : String := if c.validated then c.legacyKey P ++ ":validated-target-v1" else c.legacyKey P

def preBasis : List String :=
  match c.method.basis with
  | none => []
  | some _ => if c.validated then [c.base P ++ ":validated-target-v1", c.base P] else [c.base P]

end Call

inductive Outcome (F : Type) where
  /-- Returned from the journal, without a native call. -/
  | replayed (r : Response F)
  | native (r : Response F)
  | raised (e : Refusal)

/-- The loop of `require_current_basis` over the keys before the basis. -/
def blockPreBasis (basis : String) : List String → Journal → Except Refusal Unit × Journal
  | [], j => (.ok (), j)
  | previous :: rest, j =>
    match j.response P previous with
    | .error e => (.error e, j)
    | .ok none => blockPreBasis basis rest j
    | .ok (some saved) => (.error .basisMismatch, j.recordIncompatibleBasis P basis previous saved)

def requireCurrentBasis (c : Call F Arg) (j : Journal) : Except Refusal Unit × Journal :=
  match c.method.basis with
  | none => (.ok (), j)
  | some basis =>
    match j.response P (c.key P) with
    | .error e => (.error e, j)
    | .ok (some _) => (.ok (), j)
    | .ok none =>
      match j.response P (c.legacyKey P) with
      | .error e => (.error e, j)
      | .ok (some _) => (.ok (), j)
      | .ok none => blockPreBasis P basis (c.preBasis P) j

/-- The bytes a call may replay. -/
def saved (c : Call F Arg) (j : Journal) : Except Refusal (Option (List UInt8)) :=
  match j.response P (c.key P) with
  | .ok none => if c.validated then j.response P (c.legacyKey P) else .ok none
  | answer => answer

/-- `owner.journal.response(key, body)` before an answer. -/
def store (c : Call F Arg) (body : List UInt8) (answer : Outcome F) (j : Journal) :
    Outcome F × Journal :=
  match (j.insert P (c.key P) body).response P (c.key P) with
  | .error e => (.raised e, j.insert P (c.key P) body)
  | .ok _ => (answer, j.insert P (c.key P) body)

/-- The native call and what is kept of it. -/
def acquire (c : Call F Arg) (rejected : Option (Response F)) (j : Journal) : Outcome F × Journal :=
  match c.native rejected with
  | none => (.raised .native, j)
  | some value =>
    match value.encode P.float with
    | none => (.raised .unencodable, j)
    | some encoded =>
      if c.valid value then store P c encoded (.native value) j
      else (.native value, j.observeResponse P (c.legacyKey P) encoded "native")

/-- What a call makes of saved bytes. -/
def replay (c : Call F Arg) (body : List UInt8) (j : Journal) : Outcome F × Journal :=
  match decode P.float body with
  | none => (.raised .undecodable, j)
  | some result =>
    if c.valid result then store P c body (.replayed result) j
    else acquire P c (some result) (j.observeResponse P (c.legacyKey P) body "legacy_cache")

/-- `call` under an active owner. -/
def call (c : Call F Arg) (j : Journal) : Outcome F × Journal :=
  match requireCurrentBasis P c j with
  | (.error e, j) => (.raised e, j)
  | (.ok (), j) =>
    match saved P c j with
    | .error e => (.raised e, j)
    | .ok none => acquire P c none j
    | .ok (some body) => replay P c body j

/-- The journal after calls of one work. -/
def runCalls (calls : List (Call F Arg)) (j : Journal) : Journal :=
  calls.foldl (fun j c => (call P c j).2) j

/-! ## Rows stay -/

/-- Every row of one journal is in the other as it is. -/
structure Keeps (j k : Journal) : Prop where
  row : ∀ {key row}, j.find key = some row → k.find key = some row

theorem Keeps.refl (j : Journal) : Keeps j j := ⟨id⟩

theorem Keeps.trans {i j k : Journal} (h : Keeps i j) (h' : Keeps j k) : Keeps i k :=
  ⟨fun hrow => h'.row (h.row hrow)⟩

theorem find_insert_of_none {key : String} {j : Journal} (h : j.find key = none)
    (body : List UInt8) : (j.insert P key body).find key = some (P.row key body) := by
  have hfind : j.responses.find? (·.key == key) = none := h
  rw [Journal.insert, h]
  simp [Journal.find, hfind, Platform.row]

theorem keeps_insert (j : Journal) (key : String) (body : List UInt8) :
    Keeps j (j.insert P key body) := by
  refine ⟨fun {k row} hrow => ?_⟩
  unfold Journal.insert
  split
  · exact hrow
  · have hfind : j.responses.find? (·.key == k) = some row := hrow
    simp [Journal.find, hfind]

theorem keeps_observe (j : Journal) (key : String) (body : List UInt8) (origin : String) :
    Keeps j (j.observeResponse P key body origin) := ⟨id⟩

theorem keeps_blockPreBasis (basis : String) (keys : List String) (j : Journal) :
    Keeps j (blockPreBasis P basis keys j).2 := by
  induction keys with
  | nil => exact Keeps.refl j
  | cons previous rest ih =>
    unfold blockPreBasis
    split
    · exact Keeps.refl j
    · exact ih
    · rw [Journal.recordIncompatibleBasis]
      dsimp only
      split
      · exact Keeps.refl j
      · exact keeps_observe P ..

theorem keeps_requireCurrentBasis (c : Call F Arg) (j : Journal) :
    Keeps j (requireCurrentBasis P c j).2 := by
  unfold requireCurrentBasis
  split
  · exact Keeps.refl j
  · split
    · exact Keeps.refl j
    · exact Keeps.refl j
    · split
      · exact Keeps.refl j
      · exact Keeps.refl j
      · exact keeps_blockPreBasis P ..

theorem store_snd (c : Call F Arg) (body : List UInt8) (answer : Outcome F) (j : Journal) :
    (store P c body answer j).2 = j.insert P (c.key P) body := by
  unfold store
  split <;> rfl

theorem keeps_acquire (c : Call F Arg) (rejected : Option (Response F)) (j : Journal) :
    Keeps j (acquire P c rejected j).2 := by
  unfold acquire
  split
  · exact Keeps.refl j
  · split
    · exact Keeps.refl j
    · split
      · rw [store_snd]
        exact keeps_insert P ..
      · exact keeps_observe P ..

theorem keeps_replay (c : Call F Arg) (body : List UInt8) (j : Journal) :
    Keeps j (replay P c body j).2 := by
  unfold replay
  split
  · exact Keeps.refl j
  · split
    · rw [store_snd]
      exact keeps_insert P ..
    · exact (keeps_observe P ..).trans (keeps_acquire P ..)

theorem keeps_call (c : Call F Arg) (j : Journal) : Keeps j (call P c j).2 := by
  have hbasis := keeps_requireCurrentBasis P c j
  unfold call
  split
  · rename_i e k h
    rw [h] at hbasis
    exact hbasis
  · rename_i k h
    rw [h] at hbasis
    refine hbasis.trans ?_
    split
    · exact Keeps.refl k
    · exact keeps_acquire P ..
    · exact keeps_replay P ..

theorem keeps_runCalls (calls : List (Call F Arg)) (j : Journal) : Keeps j (runCalls P calls j) := by
  induction calls generalizing j with
  | nil => exact Keeps.refl j
  | cons c calls ih => exact (keeps_call P c j).trans (ih _)

/-! ## What a call answers -/

section Answers
variable {P} {c : Call F Arg} {j : Journal} {body : List UInt8} {r : Response F}

theorem response_of_row {key : String} (h : j.find key = some (P.row key body)) :
    j.response P key = .ok (some body) := by
  rw [Journal.response, h]
  exact if_pos rfl

theorem response_of_none {key : String} (h : j.find key = none) : j.response P key = .ok none := by
  rw [Journal.response, h]

/-- The row of the key itself answers first. -/
theorem call_of_row (h : j.find (c.key P) = some (P.row (c.key P) body)) :
    call P c j = replay P c body j := by
  have hbasis : requireCurrentBasis P c j = (.ok (), j) := by
    unfold requireCurrentBasis
    split
    · rfl
    · rw [response_of_row h]
  have hsaved : saved P c j = .ok (some body) := by rw [saved, response_of_row h]
  rw [call, hbasis]
  dsimp only
  rw [hsaved]

/-- Without it a validated call takes the row from before the validation. -/
theorem call_of_legacy (hvalidated : c.validated = true) (hnone : j.find (c.key P) = none)
    (h : j.find (c.legacyKey P) = some (P.row (c.legacyKey P) body)) :
    call P c j = replay P c body j := by
  have hbasis : requireCurrentBasis P c j = (.ok (), j) := by
    unfold requireCurrentBasis
    split
    · rfl
    · rw [response_of_none hnone, response_of_row h]
  have hsaved : saved P c j = .ok (some body) := by
    rw [saved, response_of_none hnone]
    dsimp only
    rw [if_pos hvalidated, response_of_row h]
  rw [call, hbasis]
  dsimp only
  rw [hsaved]

theorem store_of_row (h : j.find (c.key P) = some (P.row (c.key P) body)) (answer : Outcome F) :
    store P c body answer j = (answer, j) := by
  have hinsert : j.insert P (c.key P) body = j := by
    rw [Journal.insert, h]
    rfl
  rw [store, hinsert, response_of_row h]

theorem store_of_none (h : j.find (c.key P) = none) (answer : Outcome F) :
    store P c body answer j = (answer, j.insert P (c.key P) body) := by
  rw [store, response_of_row (find_insert_of_none P h body)]

theorem acquire_ne_replayed (rejected : Option (Response F)) :
    (acquire P c rejected j).1 ≠ .replayed r := by
  intro h
  unfold acquire at h
  split at h
  · cases h
  · split at h
    · cases h
    · split at h
      · unfold store at h
        split at h <;> cases h
      · cases h

/-- Only what the text of a valid result gives is replayed. -/
theorem replay_replayed (h : (replay P c body j).1 = .replayed r) :
    decode P.float body = some r ∧ c.valid r = true := by
  unfold replay at h
  split at h
  · cases h
  · rename_i result hresult
    split at h
    · rename_i hvalid
      unfold store at h
      split at h
      · cases h
      · cases h
        exact ⟨hresult, hvalid⟩
    · exact absurd h (acquire_ne_replayed _)

theorem call_replayed (h : (call P c j).1 = .replayed r) :
    ∃ body, saved P c (requireCurrentBasis P c j).2 = .ok (some body) ∧
      decode P.float body = some r ∧ c.valid r = true := by
  unfold call at h
  split at h
  · cases h
  · rename_i k hk
    rw [hk]
    split at h
    · cases h
    · exact absurd h (acquire_ne_replayed _)
    · rename_i body hbody
      exact ⟨body, hbody, replay_replayed h⟩

theorem replay_of_decoded (h : decode P.float body = some r) (hvalid : c.valid r = true) :
    replay P c body j = store P c body (.replayed r) j := by
  rw [replay, h]
  exact if_pos hvalid

theorem row_of_response {key : String} (h : j.response P key = .ok (some body)) :
    j.find key = some (P.row key body) := by
  unfold Journal.response at h
  split at h
  · cases h
  · rename_i row hrow
    split at h
    · rename_i hsha
      cases h
      have hkey : row.key = key := by simpa using List.find?_some hrow
      rw [hrow, Platform.row, hsha, ← hkey]
    · cases h

theorem blockPreBasis_ok {basis : String} {keys : List String}
    (h : (blockPreBasis P basis keys j).1 = .ok ()) : (blockPreBasis P basis keys j).2 = j := by
  induction keys with
  | nil => rfl
  | cons previous rest ih =>
    unfold blockPreBasis at h ⊢
    split
    · rfl
    · rename_i hnone
      rw [hnone] at h
      exact ih h
    · rename_i saved hsome
      rw [hsome] at h
      cases h

/-- A basis that is current changes nothing. -/
theorem requireCurrentBasis_ok (h : (requireCurrentBasis P c j).1 = .ok ()) :
    (requireCurrentBasis P c j).2 = j := by
  unfold requireCurrentBasis at h ⊢
  split
  · rfl
  · rename_i basis hbasis
    rw [hbasis] at h
    dsimp only at h
    split
    · rfl
    · rfl
    · rename_i hkey
      rw [hkey] at h
      dsimp only at h
      split
      · rfl
      · rfl
      · rename_i hlegacy
        rw [hlegacy] at h
        exact blockPreBasis_ok h

/-- What is replayed is the row of the key, or the one from before the validation. -/
theorem call_replayed_stored (h : (call P c j).1 = .replayed r) :
    c.valid r = true ∧ ∃ key body, (key = c.key P ∨ key = c.legacyKey P) ∧
      j.find key = some (P.row key body) ∧ decode P.float body = some r := by
  unfold call at h
  split at h
  · cases h
  · rename_i k hk
    have hkj : k = j := by
      have hsame := requireCurrentBasis_ok (P := P) (c := c) (j := j) (by rw [hk])
      rwa [hk] at hsame
    subst hkj
    split at h
    · cases h
    · exact absurd h (acquire_ne_replayed _)
    · rename_i body hbody
      obtain ⟨hdecode, hvalid⟩ := replay_replayed h
      refine ⟨hvalid, ?_⟩
      unfold saved at hbody
      split at hbody
      · split at hbody
        · exact ⟨c.legacyKey P, body, Or.inr rfl, row_of_response hbody, hdecode⟩
        · cases hbody
      · exact ⟨c.key P, body, Or.inl rfl, row_of_response hbody, hdecode⟩

theorem acquire_native {rejected : Option (Response F)} (hnone : j.find (c.key P) = none)
    (h : (acquire P c rejected j).1 = .native r) (hvalid : c.valid r = true) :
    ∃ body, r.encode P.float = some body ∧
      (acquire P c rejected j).2.find (c.key P) = some (P.row (c.key P) body) := by
  unfold acquire at h ⊢
  split at h
  · cases h
  · rename_i value hvalue
    split at h
    · cases h
    · rename_i encoded hencoded
      have hr : value = r := by
        split at h
        · rw [store_of_none hnone] at h
          cases h
          rfl
        · cases h
          rfl
      subst hr
      refine ⟨encoded, hencoded, ?_⟩
      rw [if_pos hvalid, store_of_none hnone]
      exact find_insert_of_none P hnone encoded

/-- A valid result of the native call is the row of its key, if there was none. -/
theorem call_native (hnone : j.find (c.key P) = none) (h : (call P c j).1 = .native r)
    (hvalid : c.valid r = true) :
    ∃ body, r.encode P.float = some body ∧
      (call P c j).2.find (c.key P) = some (P.row (c.key P) body) := by
  unfold call at h ⊢
  split at h
  · cases h
  · rename_i k hk
    have hkj : k = j := by
      have hsame := requireCurrentBasis_ok (P := P) (c := c) (j := j) (by rw [hk])
      rwa [hk] at hsame
    subst hkj
    split at h
    · cases h
    · exact acquire_native hnone h hvalid
    · unfold replay at h ⊢
      split at h
      · cases h
      · split at h
        · rw [store_of_none hnone] at h
          cases h
        · rename_i hinvalid
          rw [if_neg hinvalid]
          exact acquire_native hnone h hvalid

/-- A stored valid response is what the next call answers just when its text reads as it. -/
theorem call_of_row_iff (hrow : j.find (c.key P) = some (P.row (c.key P) body))
    (hvalid : c.valid r = true) :
    call P c j = (.replayed r, j) ↔ decode P.float body = some r := by
  rw [call_of_row hrow]
  constructor
  · intro h
    exact (replay_replayed (by rw [h])).1
  · intro h
    rw [replay_of_decoded h hvalid, store_of_row hrow]

/-- The same for a row from before the validation, which is then copied. -/
theorem call_of_legacy_iff (hvalidated : c.validated = true) (hnone : j.find (c.key P) = none)
    (hrow : j.find (c.legacyKey P) = some (P.row (c.legacyKey P) body)) (hvalid : c.valid r = true) :
    call P c j = (.replayed r, j.insert P (c.key P) body) ↔ decode P.float body = some r := by
  rw [call_of_legacy hvalidated hnone hrow]
  constructor
  · intro h
    exact (replay_replayed (by rw [h])).1
  · intro h
    rw [replay_of_decoded h hvalid, store_of_none hnone]

end Answers

/-! ## The replay law -/

theorem oneAndHalf_letters {c : Char} (h : c ∈ ['1', '.', '5']) :
    c ∈ "0123456789-+.eNaInfity".toList := by
  rcases List.mem_cons.mp h with rfl | h
  · exact List.contains_iff_mem.mp rfl
  · rcases List.mem_pair.mp h with rfl | rfl <;> exact List.contains_iff_mem.mp rfl

/-- Floats of one value. -/
def oneAndHalf : FloatText Unit where
  write _ := ['1', '.', '5']
  read token := if token = ['1', '.', '5'] then some () else none
  read_write _ := rfl
  head _ := ⟨'1', _, rfl, by decide⟩
  letters _ _ := oneAndHalf_letters
  not_int _ := ⟨'.', by decide, by decide, rfl⟩

def sampleCatalogue : DurableResponse Unit Unit := ⟨"shioaji_catalogue", fun _ => [], none, none⟩

def markedResponse : Response Unit := .value (.dict [("__bytes__", .str "AA==")])

def samplePlatform : Platform Unit := ⟨oneAndHalf, fun _ => "digest"⟩

def sampleCall : Call Unit Unit := ⟨sampleCatalogue, (), fun _ => some markedResponse⟩

theorem find_empty (key : String) : (Journal.mk [] []).find key = none := rfl

theorem marked_copy : copy markedResponse.data = some (.bytes [0]) := by
  have hbytes : b64decode "AA==".toList = some [0] := by decide +kernel
  have hcopy : copy markedResponse.data = (b64decode "AA==".toList).map Value.bytes := rfl
  rw [hcopy, hbytes, Option.map_some]

theorem marked_decoded :
    (markedResponse.encode oneAndHalf).bind (decode oneAndHalf) = some (.value (.bytes [0])) := by
  have hsorted : markedResponse.Sorted := ⟨List.pairwise_singleton _ _, trivial, trivial⟩
  rw [decode_encode oneAndHalf hsorted, marked_copy]
  rfl

theorem nested_tuple_decoded :
    ((Response.value (.list [.tuple []])).encode oneAndHalf).bind (decode oneAndHalf) =
      some (.value (.list [.list []])) := by
  have hsorted : (Response.value (.list [.tuple []]) : Response Unit).Sorted :=
    ⟨trivial, trivial⟩
  rw [decode_encode oneAndHalf hsorted]
  rfl

/-- The catalogue came as a dictionary, and comes back as one byte. -/
theorem marked_comes_back_as_bytes :
    (call samplePlatform sampleCall ⟨[], []⟩).1 = .native markedResponse ∧
      (call samplePlatform sampleCall (call samplePlatform sampleCall ⟨[], []⟩).2).1 =
        .replayed (.value (.bytes [0])) ∧
      ((Response.value (.list [.tuple []])).encode oneAndHalf).bind (decode oneAndHalf) =
        some (.value (.list [.list []])) := by
  obtain ⟨body, hbody, hdecode⟩ := Option.bind_eq_some_iff.mp marked_decoded
  have hvalid : ∀ r, sampleCall.valid r = true := fun _ => rfl
  have hempty := find_empty (sampleCall.key samplePlatform)
  have hfirst : call samplePlatform sampleCall ⟨[], []⟩ = (.native markedResponse,
      (Journal.mk [] []).insert samplePlatform (sampleCall.key samplePlatform) body) := by
    have hacquire : call samplePlatform sampleCall ⟨[], []⟩ =
        acquire samplePlatform sampleCall none ⟨[], []⟩ := by
      rw [call, show requireCurrentBasis samplePlatform sampleCall ⟨[], []⟩ = (.ok (), ⟨[], []⟩) from rfl]
      dsimp only
      rw [saved, response_of_none hempty]
      rfl
    rw [hacquire, acquire, show sampleCall.native none = some markedResponse from rfl]
    dsimp only
    rw [show samplePlatform.float = oneAndHalf from rfl, hbody]
    dsimp only
    rw [if_pos (hvalid _), store_of_none hempty]
  have hrow := find_insert_of_none samplePlatform hempty body
  rw [hfirst]
  refine ⟨rfl, ?_, nested_tuple_decoded⟩
  rw [call_of_row hrow, replay_of_decoded (P := samplePlatform) (c := sampleCall) hdecode (hvalid _),
    store_of_row hrow]

end FinDB.Fetcher.Durable
