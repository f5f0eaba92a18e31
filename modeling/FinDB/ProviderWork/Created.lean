import FinDB.ProviderWork.Fencing

/-! # What a new request writes

The checks `create_request` has passed when it returns, and the request and item
rows it leaves: one item a calendar day, and no row of another request. -/
namespace FinDB.ProviderWork
open FinDB.Lib

variable {cfg : Config} {s t : Db}

/-! ## Writes beside the requests -/

/-- The request and item rows are untouched. -/
structure SameRequests (s t : Db) : Prop where
  requests : t.requests = s.requests
  items : t.items = s.items

theorem SameRequests.refl (s : Db) : SameRequests s s := ⟨rfl, rfl⟩

theorem SameRequests.trans {u : Db} (h : SameRequests s t) (h' : SameRequests t u) :
    SameRequests s u := ⟨h'.requests.trans h.requests, h'.items.trans h.items⟩

theorem enqueue_sameRequests {utc : Instant} {ids : Uuid × Uuid} {r : EnqueueRequest} {w : Work}
    (h : enqueue utc ids r s = .ok (t, w)) : SameRequests s t := by
  unfold enqueue at h
  obtain ⟨_, _, h⟩ := ok_bind h
  split at h
  · obtain ⟨_, _, h⟩ := ok_bind h
    cases ok_pure h
    exact .refl s
  · obtain ⟨works, _, h⟩ := ok_bind h
    obtain ⟨s', ha, h⟩ := ok_bind h
    cases ok_pure h
    obtain ⟨_, _, _, _, _, rfl⟩ := addAttempt_ok ha
    exact ⟨rfl, rfl⟩

theorem enqueueItems_sameRequests {utc : Instant} {datasetKey : DatasetKey}
    {rows : List ((Uuid × Uuid) × Item)}
    (h : rows.foldlM (enqueueItem cfg utc datasetKey) s = .ok t) : SameRequests s t := by
  induction rows generalizing s with
  | nil =>
    cases ok_pure h
    exact ⟨rfl, rfl⟩
  | cons row rows ih =>
    rw [List.foldlM_cons] at h
    obtain ⟨s', hone, h⟩ := ok_bind h
    refine SameRequests.trans ?_ (ih h)
    unfold enqueueItem at hone
    split at hone
    · obtain ⟨⟨s'', w⟩, henq, hone⟩ := ok_bind hone
      cases ok_pure hone
      exact enqueue_sameRequests henq
    · cases hone
      exact ⟨rfl, rfl⟩

/-- Adding items one by one. -/
theorem addItems_ok {xs : List Item} (h : xs.foldlM addItem s = .ok t) :
    t.requests = s.requests ∧ (∀ i, i ∈ t.items ↔ i ∈ s.items ∨ i ∈ xs) ∧
      ∀ x ∈ xs, ∀ i ∈ s.items, i.itemId ≠ x.itemId := by
  induction xs generalizing s with
  | nil =>
    cases ok_pure h
    exact ⟨rfl, by simp, by simp⟩
  | cons x xs ih =>
    rw [List.foldlM_cons] at h
    obtain ⟨s', hadd, h⟩ := ok_bind h
    obtain ⟨items, hins, rfl⟩ := addItem_ok hadd
    obtain ⟨hrequests, hmem, hfresh⟩ := ih h
    have hnew : ∀ i, i ∈ items ↔ i ∈ s.items ∨ i = x := fun i => Table.mem_insert? hins
    refine ⟨hrequests, fun i => ?_, fun y hy i hi => ?_⟩
    · rw [hmem i, List.mem_cons, ← or_assoc]
      exact or_congr_left (hnew i)
    · rcases List.mem_cons.mp hy with rfl | hy
      · exact Table.insert?_fresh hins i hi
      · exact hfresh y hy i ((hnew i).mpr (Or.inl hi))

/-! ## The window -/

/-- The range lies within the latest days before `today`. -/
def InWindow (cfg : Config) (today start stop : Date) : Prop :=
  today - ((maxBackfillDays cfg : Int) - 1) ≤ start ∧ stop ≤ today

instance (cfg : Config) (today start stop : Date) : Decidable (InWindow cfg today start stop) :=
  inferInstanceAs (Decidable (_ ∧ _))

/-- `today` of a call. -/
def CreateRequest.todayAt (cfg : Config) (utc : Instant) (r : CreateRequest) : Date :=
  r.today.getD (requestToday cfg utc)

/-! ## The new rows -/

/-- The items of the days a calendar answers. -/
def newItems (cfg : Config) (utc : Instant) (requestId : Uuid) (ids : Nat → Uuid × Uuid × Uuid)
    (days : List CalendarDay) : List Item :=
  days.zipIdx.map fun (d, i) => newItem cfg utc requestId (ids i).1 d

/-- What a request that is not a duplicate has checked and written. -/
structure Created (cfg : Config) (utc : Instant) (requestId : Uuid) (ids : Nat → Uuid × Uuid × Uuid)
    (r : CreateRequest) (days : List CalendarDay) (s t : Db) : Prop where
  window : InWindow cfg (r.todayAt cfg utc) r.startDate r.endDate
  dataset : ((s.registry.datasets r.datasetKey).filter (·.isActive)).isSome = true
  supported : supportsBackfill cfg.provider r.datasetKey = true
  scheduled : s.registry.schedulerDatasets r.datasetKey = true
  calendar : s.registry.effectiveDays r.datasetKey r.startDate r.endDate = .ok days
  fresh : ∀ x ∈ newItems cfg utc requestId ids days, ∀ i ∈ s.items, i.itemId ≠ x.itemId
  items : ∀ i, i ∈ t.items ↔ i ∈ s.items ∨ i ∈ newItems cfg utc requestId ids days
  request : ∃ snapshot requests, s.requests.insert?
    (newRequest utc requestId r snapshot (newItems cfg utc requestId ids days)) = some requests ∧
      t.requests = requests

theorem createRequest_ok {utc : Instant} {requestId : Uuid} {ids : Nat → Uuid × Uuid × Uuid}
    {r : CreateRequest} (h : createRequest cfg utc requestId ids r s = .ok t) :
    ((∃ q ∈ s.requests, q.requestKey = r.requestKey) ∧ t = s) ∨
      ∃ days, Created cfg utc requestId ids r days s t := by
  unfold createRequest at h
  obtain ⟨_, hwindow, h⟩ := ok_bind h
  obtain ⟨_, _, h⟩ := ok_bind h
  split at h
  · rename_i q hq
    obtain ⟨_, _, h⟩ := ok_bind h
    cases ok_pure h
    exact Or.inl ⟨⟨q, List.mem_of_find?_eq_some hq, by simpa using List.find?_some hq⟩, rfl⟩
  · obtain ⟨dataset, hdataset, h⟩ := ok_bind h
    obtain ⟨_, hsupported, h⟩ := ok_bind h
    obtain ⟨_, hscheduled, h⟩ := ok_bind h
    obtain ⟨snapshot, _, h⟩ := ok_bind h
    obtain ⟨days, hdays, h⟩ := ok_bind h
    obtain ⟨requests, hreq, h⟩ := ok_bind h
    obtain ⟨s', hitems, h⟩ := ok_bind h
    have hrows : (days.zipIdx.map fun (x : CalendarDay × Nat) =>
        ((ids x.2).2, newItem cfg utc requestId (ids x.2).1 x.1)).map (·.2) =
          newItems cfg utc requestId ids days := by
      rw [List.map_map]
      rfl
    have hreq := need_ok.mp hreq
    rw [hrows] at hreq hitems
    obtain ⟨hkept, hmem, hfresh⟩ := addItems_ok hitems
    have hsame := enqueueItems_sameRequests h
    refine Or.inr ⟨days, of_decide_eq_true (ensure_ok.mp hwindow), ?_, ensure_ok.mp hsupported,
      ensure_ok.mp hscheduled, mapError_ok hdays, hfresh, fun i => ?_, snapshot, requests, hreq, ?_⟩
    · rw [need_ok.mp hdataset]
      rfl
    · rw [hsame.items]
      exact hmem i
    · rw [hsame.requests, hkept]

/-- Outside the window the call is refused with the window's message. -/
theorem createRequest_outside {utc : Instant} {requestId : Uuid} {ids : Nat → Uuid × Uuid × Uuid}
    {r : CreateRequest} (h : ¬ InWindow cfg (r.todayAt cfg utc) r.startDate r.endDate) :
    createRequest cfg utc requestId ids r s = .error
      (.backfill s!"backfill dates must be within the latest {(maxBackfillDays cfg : Int)} calendar days") := by
  unfold createRequest
  have hfalse : decide (r.todayAt cfg utc - ((maxBackfillDays cfg : Int) - 1) ≤ r.startDate ∧
      r.endDate ≤ r.todayAt cfg utc) = false := decide_eq_false h
  unfold CreateRequest.todayAt at hfalse
  simp only [hfalse]
  rfl

end FinDB.ProviderWork
