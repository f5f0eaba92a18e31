import FinDB.ProviderWork.Refinement
import FinDB.ProviderWork.Requests

/-! # The historical operations as transitions

Cancellation and expiry end the items of a request first and the request last;
the source writes the request row before its items, which changes nothing since
no step in between reads it. -/
namespace FinDB.ProviderWork
open FinDB.Lib Relation

variable {cfg : Config} {mode : Mode} {s t : Db} {now : Instant}

/-! ## Cancelling the work of an ended item -/

@[simp] theorem cancelQueuedItemWork_items (itemId : Uuid) :
    (cancelQueuedItemWork now itemId s).items = s.items := by
  unfold cancelQueuedItemWork
  split
  · rfl
  · split
    · rfl
    · split <;> rfl

@[simp] theorem cancelQueuedItemWork_requests (itemId : Uuid) :
    (cancelQueuedItemWork now itemId s).requests = s.requests := by
  unfold cancelQueuedItemWork
  split
  · rfl
  · split
    · rfl
    · split <;> rfl

theorem cancelQueuedItemWork_setItem (itemId id : Uuid) (f : Item → Item) (hf) :
    cancelQueuedItemWork now itemId (s.setItem id f hf) =
      (cancelQueuedItemWork now itemId s).setItem id f hf := by
  have hkey : (s.setItem id f hf).workByKey (.historical itemId) =
    s.workByKey (.historical itemId) := rfl
  unfold cancelQueuedItemWork
  rw [hkey]
  cases s.workByKey (.historical itemId) with
  | none => rfl
  | some work =>
    have hr : (s.setItem id f hf).retained work.workId = s.retained work.workId := rfl
    simp only [hr]
    split
    · rfl
    · split <;> rfl

theorem cancelQueuedItemWork_setRequest (itemId id : Uuid) (f : Request → Request) (hf) :
    cancelQueuedItemWork now itemId (s.setRequest id f hf) =
      (cancelQueuedItemWork now itemId s).setRequest id f hf := by
  have hkey : (s.setRequest id f hf).workByKey (.historical itemId) =
    s.workByKey (.historical itemId) := rfl
  unfold cancelQueuedItemWork
  rw [hkey]
  cases s.workByKey (.historical itemId) with
  | none => rfl
  | some work =>
    have hr : (s.setRequest id f hf).retained work.workId = s.retained work.workId := rfl
    simp only [hr]
    split
    · rfl
    · split <;> rfl

theorem cancelQueuedItemWork_transs {itemId : Uuid}
    (ended : ∀ i ∈ s.items, i.itemId = itemId → i.status.live = false) :
    Transs cfg mode s (cancelQueuedItemWork now itemId s) := by
  unfold cancelQueuedItemWork
  cases hk : s.workByKey (.historical itemId) with
  | none => exact ReflTransGen.refl
  | some work =>
    obtain ⟨hmem, hkey⟩ := workByKey_some hk
    simp only
    split
    · exact ReflTransGen.refl
    · rename_i hq
      split
      · exact Trans.single (.drainQueued work.workId)
      · rename_i hkept
        refine Trans.single (.cancelQueued now hmem (by simpa using hq) (by simpa using hkept) ?_)
        intro _ i hi hik
        rw [hkey] at hik
        cases hik
        exact ended i hi rfl

/-! ## Ending the items of a request -/

theorem cancelled_ends : EndsItem (Item.cancelled now) := fun _ => ⟨rfl, Or.inr rfl⟩

theorem expired_ends : EndsItem (Item.expired now) := fun _ => ⟨rfl, Or.inr rfl⟩

theorem cancelLive_transs (x : Item) : Transs cfg mode s (cancelLive now x s) := by
  unfold cancelLive
  split
  · exact Trans.single (.endItem x.itemId (Item.cancelled now) (fun _ => rfl) cancelled_ends)
  · exact ReflTransGen.refl

/-- A row still live after `cancelLive` was not the one it looked at. -/
theorem cancelLive_live {x i : Item} (h : i ∈ (cancelLive now x s).items) (hl : i.status.live = true) :
    i ∈ s.items ∧ (i.itemId = x.itemId → x.status.live = false) := by
  unfold cancelLive at h
  split at h
  · rcases (Db.mem_setItem (by intro _; rfl)).mp h with ⟨hi, hne⟩ | ⟨j, _, _, rfl⟩
    · exact ⟨hi, fun he => absurd he hne⟩
    · cases hl
  · rename_i hx
    exact ⟨h, fun _ => by simpa using hx⟩

/-- The rows were read when they were at least as live as they are now. -/
def Snapshot (xs : List Item) (s : Db) : Prop :=
  ∀ x ∈ xs, ∀ i ∈ s.items, i.itemId = x.itemId → i.status.live = true → x.status.live = true

theorem snapshot_itemsOf (requestId : Uuid) : Snapshot (s.itemsOf requestId) s := by
  intro x hx i hi he hl
  have hx : x ∈ s.items := (List.mem_filter.mp hx).1
  rw [← Table.eq_of_key hi hx he]
  exact hl

theorem Snapshot.filter {xs : List Item} (h : Snapshot xs s) (p : Item → Bool) :
    Snapshot (xs.filter p) s := fun x hx => h x (List.mem_filter.mp hx).1

theorem expireSibling_requests (x : Item) : (expireSibling now s x).requests = s.requests := by
  unfold expireSibling cancelLive
  rw [cancelQueuedItemWork_requests]
  split <;> rfl

theorem expireSibling_items (x : Item) : (expireSibling now s x).items = (cancelLive now x s).items := by
  unfold expireSibling
  rw [cancelQueuedItemWork_items]

theorem expireSibling_setRequest (x : Item) (id : Uuid) (f : Request → Request) (hf) :
    expireSibling now (s.setRequest id f hf) x = (expireSibling now s x).setRequest id f hf := by
  unfold expireSibling
  rw [← cancelQueuedItemWork_setRequest]
  unfold cancelLive
  split <;> rfl

/-- The two loops that end an item do the same writes in another order. -/
theorem cancelItem_eq (x : Item) : cancelItem now s x = expireSibling now s x := by
  unfold cancelItem expireSibling cancelLive
  split
  · exact (cancelQueuedItemWork_setItem x.itemId x.itemId _ _).symm
  · rfl

theorem expireSibling_transs {x : Item} (h : Snapshot [x] s) :
    Transs cfg mode s (expireSibling now s x) := by
  refine ReflTransGen.trans (cancelLive_transs x) (cancelQueuedItemWork_transs ?_)
  intro i hi he
  cases hl : i.status.live with
  | false => rfl
  | true =>
    obtain ⟨hmem, hx⟩ := cancelLive_live hi hl
    have := h x (by simp) i hmem he hl
    rw [hx he] at this
    cases this

theorem siblings_requests (xs : List Item) :
    (xs.foldl (expireSibling now) s).requests = s.requests := by
  induction xs generalizing s with
  | nil => rfl
  | cons x xs ih =>
    rw [List.foldl_cons, ih]
    exact expireSibling_requests x

theorem siblings_setRequest (xs : List Item) (id : Uuid) (f : Request → Request) (hf) :
    xs.foldl (expireSibling now) (s.setRequest id f hf) =
      (xs.foldl (expireSibling now) s).setRequest id f hf := by
  induction xs generalizing s with
  | nil => rfl
  | cons x xs ih =>
    rw [List.foldl_cons, expireSibling_setRequest, ih]
    rfl

/-- The loop over the siblings is a run, and leaves none of them live. -/
theorem siblings_transs {xs : List Item} (h : Snapshot xs s) :
    Transs cfg mode s (xs.foldl (expireSibling now) s) ∧
      ∀ i ∈ (xs.foldl (expireSibling now) s).items, i.status.live = true →
        i ∈ s.items ∧ ∀ x ∈ xs, i.itemId ≠ x.itemId := by
  induction xs generalizing s with
  | nil => exact ⟨ReflTransGen.refl, fun i hi _ => ⟨hi, by simp⟩⟩
  | cons x xs ih =>
    have hlive : ∀ i ∈ (expireSibling now s x).items, i.status.live = true →
        i ∈ s.items ∧ i.itemId ≠ x.itemId := by
      intro i hi hl
      rw [expireSibling_items] at hi
      obtain ⟨hmem, hx⟩ := cancelLive_live hi hl
      refine ⟨hmem, fun he => ?_⟩
      have := h x (by simp) i hmem he hl
      rw [hx he] at this
      cases this
    have hsnap : Snapshot xs (expireSibling now s x) := by
      intro y hy i hi he hl
      exact h y (by simp [hy]) i (hlive i hi hl).1 he hl
    obtain ⟨htrans, hrest⟩ := ih hsnap
    have hx : Transs cfg mode s (expireSibling now s x) :=
      expireSibling_transs fun y hy => h y (by simp_all)
    refine ⟨ReflTransGen.trans hx htrans, fun i hi hl => ?_⟩
    obtain ⟨hi', hxs⟩ := hrest i hi hl
    obtain ⟨hmem, hne⟩ := hlive i hi' hl
    refine ⟨hmem, fun y hy => ?_⟩
    rcases List.mem_cons.mp hy with rfl | hy
    · exact hne
    · exact hxs y hy

/-- Ending a request: all its items first, then the request row. -/
theorem endRequest_transs {requestId : Uuid} {f : Request → Request}
    (hf : ∀ r, (f r).requestId = r.requestId) (ended : ∀ r, (f r).status.live = false)
    {xs : List Item} (hsnap : Snapshot xs s)
    (all : ∀ i ∈ s.items, i.requestId = requestId → i.status.live = true →
      ∃ x ∈ xs, i.itemId = x.itemId)
    (live : ∀ q ∈ s.requests, q.requestId = requestId → q.status.live = true) :
    Transs cfg mode s (xs.foldl (expireSibling now) (s.setRequest requestId f hf)) := by
  obtain ⟨htrans, hrest⟩ := @siblings_transs cfg mode s now xs hsnap
  rw [siblings_setRequest]
  refine ReflTransGen.tail htrans (.endRequest requestId f hf ended ?_ ?_)
  · intro i hi hir
    cases hl : i.status.live with
    | false => rfl
    | true =>
      obtain ⟨hmem, hne⟩ := hrest i hi hl
      obtain ⟨x, hx, he⟩ := all i hmem hir hl
      exact absurd he (hne x hx)
  · rw [siblings_requests]
    exact live

theorem mem_itemsOf {requestId : Uuid} {i : Item} (hi : i ∈ s.items) (h : i.requestId = requestId) :
    i ∈ s.itemsOf requestId := List.mem_filter.mpr ⟨hi, by simpa using h⟩

theorem cancelRequest_transs {requestId : Uuid} {actor : String}
    (h : cancelRequest now requestId actor s = .ok t) : Transs cfg mode s t := by
  unfold cancelRequest at h
  obtain ⟨row, hrow, h⟩ := ok_bind h
  obtain ⟨_, hlive, h⟩ := ok_bind h
  cases ok_pure h
  obtain ⟨hmem, hid⟩ := Table.find?_eq_some.mp (need_ok.mp hrow)
  have hloop : (cancelItem now) = expireSibling now := by
    funext s x
    exact cancelItem_eq x
  rw [hloop]
  refine endRequest_transs _ (fun _ => rfl) (snapshot_itemsOf requestId) ?_ ?_
  · intro i hi hir _
    exact ⟨i, mem_itemsOf hi hir, rfl⟩
  · intro q hq hqr
    rw [Table.eq_of_key hq hmem (hqr.trans hid.symm)]
    exact ensure_ok.mp hlive

/-! ## Expiry -/

theorem expireItem_transs (x : Item) : Transs cfg mode s (expireItem now s x) := by
  unfold expireItem
  split
  · rename_i item request hitem hrequest
    split
    · rename_i hlive
      simp only [Bool.and_eq_true] at hlive
      obtain ⟨hmem, hid⟩ := Table.find?_eq_some.mp hitem
      obtain ⟨hrmem, hrid⟩ := Table.find?_eq_some.mp hrequest
      have hfirst : Transs cfg mode s (s.setItem item.itemId (Item.expired now)) :=
        Trans.single (.endItem item.itemId (Item.expired now) (fun _ => rfl) expired_ends)
      refine ReflTransGen.trans hfirst (endRequest_transs _ (fun _ => rfl)
        (snapshot_itemsOf request.requestId) ?_ ?_)
      · intro i hi hir _
        exact ⟨i, mem_itemsOf hi hir, rfl⟩
      · intro q hq hqr
        rw [Table.eq_of_key hq hrmem hqr]
        exact hlive.2
    · exact ReflTransGen.refl
  · exact ReflTransGen.refl

theorem expireRequests_transs : Transs cfg mode s (expireRequests cfg now s) := by
  unfold expireRequests
  generalize expiredItems cfg now s = xs
  induction xs generalizing s with
  | nil => exact ReflTransGen.refl
  | cons x xs ih =>
    rw [List.foldl_cons]
    exact ReflTransGen.trans (expireItem_transs x) ih

theorem reconcile_transs {utc : Instant} :
    Transs cfg mode s (reconcileCancelledQueue cfg now utc s) := by
  have hexpire : Transs cfg mode s (expireRequests cfg now s) := expireRequests_transs
  refine ReflTransGen.trans hexpire ?_
  unfold reconcileCancelledQueue
  generalize expireRequests cfg now s = s'
  simp only
  have hended : ∀ x ∈ cancelledItems s', ∀ i ∈ s'.items, i.itemId = x.itemId →
      i.status.live = false := by
    intro x hx i hi he
    obtain ⟨hmem, hp⟩ := List.mem_filter.mp hx
    simp only [Bool.and_eq_true, beq_iff_eq] at hp
    rw [Table.eq_of_key hi hmem he, hp.1]
    rfl
  revert hended
  generalize cancelledItems s' = xs
  intro hended
  induction xs generalizing s' with
  | nil => exact ReflTransGen.refl
  | cons x xs ih =>
    rw [List.foldl_cons]
    refine ReflTransGen.trans (cancelQueuedItemWork_transs (hended x (by simp))) (ih _ ?_)
    intro y hy
    rw [cancelQueuedItemWork_items]
    exact hended y (by simp [hy])

/-! ## What a cancellation leaves alone -/

/-- A relation that every write of a cancellation or expiry respects. -/
structure Cancels (R : Db → Db → Prop) : Prop where
  refl : ∀ s, R s s
  trans : ∀ s t u, R s t → R t u → R s u
  work : ∀ now itemId s, R s (cancelQueuedItemWork now itemId s)
  item : ∀ s itemId f hf, R s (Db.setItem s itemId f hf)
  request : ∀ s requestId f hf, R s (Db.setRequest s requestId f hf)

section Cancels
variable {R : Db → Db → Prop} (hR : Cancels R)
include hR

theorem Cancels.foldl {f : Db → Item → Db} (hf : ∀ s x, R s (f s x)) (xs : List Item) (s : Db) :
    R s (xs.foldl f s) := by
  induction xs generalizing s with
  | nil => exact hR.refl s
  | cons x xs ih => exact hR.trans _ _ _ (hf s x) (ih (f s x))

theorem Cancels.cancelLive (x : Item) (s : Db) : R s (cancelLive now x s) := by
  unfold ProviderWork.cancelLive
  split
  · exact hR.item s _ _ _
  · exact hR.refl s

theorem Cancels.cancelItem (s : Db) (x : Item) : R s (cancelItem now s x) :=
  hR.trans _ _ _ (hR.work now x.itemId s) (hR.cancelLive x _)

theorem Cancels.expireSibling (s : Db) (x : Item) : R s (expireSibling now s x) :=
  hR.trans _ _ _ (hR.cancelLive x s) (hR.work now x.itemId _)

theorem Cancels.expireItem (s : Db) (x : Item) : R s (expireItem now s x) := by
  unfold ProviderWork.expireItem
  split
  · split
    · exact hR.trans _ _ _ (hR.trans _ _ _ (hR.item s _ _ _) (hR.request _ _ _ _))
        (hR.foldl (fun s x => hR.expireSibling s x) _ _)
    · exact hR.refl s
  · exact hR.refl s

theorem Cancels.expireRequests (s : Db) : R s (expireRequests cfg now s) :=
  hR.foldl (fun s x => hR.expireItem s x) _ s

theorem Cancels.reconcile {utc : Instant} (s : Db) : R s (reconcileCancelledQueue cfg now utc s) :=
  hR.trans _ _ _ (hR.expireRequests s) (hR.foldl (fun s x => hR.work utc x.itemId s) _ _)

end Cancels

/-- No write of a cancellation touches the owner slot. -/
theorem cancels_owner : Cancels fun s t => t.owner = s.owner where
  refl _ := rfl
  trans _ _ _ h h' := h'.trans h
  work now itemId s := by
    unfold cancelQueuedItemWork
    split
    · rfl
    · split
      · rfl
      · split <;> rfl
  item _ _ _ _ := rfl
  request _ _ _ _ := rfl

/-! ## Leasing -/

theorem projectItem_transs {work : Work} {attempt : Attempt} {item : Item} {request : Request}
    (held : Held s work attempt) (hk : work.kind = .historical) (hmem : item ∈ s.items)
    (href : work.itemRef = some item.itemId) (hreq : s.requests.find? item.requestId = some request)
    (h : projectItem cfg now s work item request = .ok t) : Transs cfg mode s t := by
  unfold projectItem at h
  simp only at h
  split at h
  · cases h; exact ReflTransGen.refl
  · rename_i hgate
    obtain ⟨closed, _, h⟩ := ok_bind h
    cases ok_pure h
    obtain ⟨hrmem, hrid⟩ := Table.find?_eq_some.mp hreq
    split
    · exact ReflTransGen.refl
    · split
      · exact Trans.single (.endItem item.itemId _ (by intro _; rfl)
          (by intro i; exact ⟨rfl, Or.inl rfl⟩))
      · rename_i hprepared
        refine Trans.single (.startItem now held hmem href hk hrmem hrid ?_)
        simp_all

theorem claimNextItem_transs {utc : Instant} {datasets : List DatasetKey}
    {identity : Option FenceIdentity}
    (h : claimNextItem cfg now utc datasets identity s = .ok t) : Transs cfg mode s t := by
  have hexpire : Transs cfg mode s (expireRequests cfg now s) := expireRequests_transs
  refine ReflTransGen.trans hexpire ?_
  unfold claimNextItem at h
  generalize expireRequests cfg now s = s' at h
  obtain ⟨id, _, h⟩ := ok_bind h
  obtain ⟨⟨work, attempt⟩, hf, h⟩ := ok_bind h
  have held : Held s' work attempt := by
    cases hx : fence cfg utc id false s' with
    | error e => rw [hx] at hf; cases hf
    | ok x =>
      rw [hx] at hf
      cases hf
      exact (fence_fenced hx).held
  obtain ⟨_, hscope, h⟩ := ok_bind h
  have hscope := ensure_ok.mp hscope
  simp only [Bool.and_eq_true, beq_iff_eq] at hscope
  obtain ⟨itemId, href, h⟩ := ok_bind h
  have href := need_ok.mp href
  split at h
  · cases ok_pure h; exact ReflTransGen.refl
  · rename_i item hitem
    obtain ⟨hmem, hid⟩ := Table.find?_eq_some.mp hitem
    obtain ⟨request, hreq, h⟩ := ok_bind h
    exact projectItem_transs held hscope.1 hmem (hid ▸ href) (need_ok.mp hreq) h

/-! ## Creating a request -/

theorem addItem_ok {i : Item} (h : addItem s i = .ok t) :
    ∃ items, s.items.insert? i = some items ∧ t = { s with items } := by
  unfold addItem at h
  obtain ⟨items, hi, h⟩ := ok_bind h
  exact ⟨items, need_ok.mp hi, ok_pure h⟩

/-- Adding the items of a request whose row is already there. -/
theorem addItems_transs {q : Request} {xs : List Item} (hq : q ∈ s.requests)
    (hx : ∀ x ∈ xs, x.requestId = q.requestId ∧ x.status ≠ .running ∧
      (x.status.live = true → q.status.live = true))
    (h : xs.foldlM addItem s = .ok t) :
    Transs cfg mode s t ∧ (∀ x ∈ xs, x ∈ t.items) ∧ ∀ i ∈ s.items, i ∈ t.items := by
  induction xs generalizing s with
  | nil =>
    cases ok_pure h
    exact ⟨ReflTransGen.refl, by simp, fun i hi => hi⟩
  | cons x xs ih =>
    rw [List.foldlM_cons] at h
    obtain ⟨s', hadd, h⟩ := ok_bind h
    obtain ⟨items, hi, rfl⟩ := addItem_ok hadd
    obtain ⟨hreq, hrun, hlive⟩ := hx x (by simp)
    have hq' : q ∈ ({ s with items } : Db).requests := hq
    obtain ⟨htrans, hxs, hold⟩ := ih hq' (fun y hy => hx y (by simp [hy])) h
    refine ⟨ReflTransGen.head (.item hrun ⟨q, hq, hreq.symm, hlive⟩ hi) htrans, ?_, ?_⟩
    · intro y hy
      rcases List.mem_cons.mp hy with rfl | hy
      · exact hold y ((Table.mem_insert? hi).mpr (Or.inr rfl))
      · exact hxs y hy
    · intro i hmem
      exact hold i ((Table.mem_insert? hi).mpr (Or.inl hmem))

theorem enqueueItem_transs {utc : Instant} {datasetKey : DatasetKey} {row : (Uuid × Uuid) × Item}
    (hmem : row.2 ∈ s.items) (h : enqueueItem cfg utc datasetKey s row = .ok t) :
    Transs cfg mode s t ∧ t.items = s.items := by
  unfold enqueueItem at h
  split at h
  · obtain ⟨⟨s', w⟩, henq, h⟩ := ok_bind h
    cases ok_pure h
    obtain ⟨htrans, _, hitems, _⟩ := @enqueue_transs cfg mode s _ utc row.1 _ w
      (fun _ => ⟨fun _ _ => rfl, fun _ => ⟨row.2, hmem, rfl, rfl⟩⟩) henq
    exact ⟨htrans, hitems⟩
  · cases h
    exact ⟨ReflTransGen.refl, rfl⟩

theorem enqueueItems_transs {utc : Instant} {datasetKey : DatasetKey}
    {rows : List ((Uuid × Uuid) × Item)} (hrows : ∀ row ∈ rows, row.2 ∈ s.items)
    (h : rows.foldlM (enqueueItem cfg utc datasetKey) s = .ok t) : Transs cfg mode s t := by
  induction rows generalizing s with
  | nil => cases ok_pure h; exact ReflTransGen.refl
  | cons row rows ih =>
    rw [List.foldlM_cons] at h
    obtain ⟨s', hone, h⟩ := ok_bind h
    have hone : Transs cfg mode s s' ∧ s'.items = s.items :=
      enqueueItem_transs (hrows row (by simp)) hone
    refine ReflTransGen.trans hone.1 (ih (fun r hr => ?_) h)
    rw [hone.2]
    exact hrows r (by simp [hr])

theorem newItem_status {requestId itemId : Uuid} {utc : Instant} {d : CalendarDay} :
    (newItem cfg utc requestId itemId d).status = .pending ∨
      (newItem cfg utc requestId itemId d).status = .skippedCalendar := by
  unfold newItem
  simp only
  split
  · exact Or.inr rfl
  · exact Or.inl rfl

theorem createRequest_transs {utc : Instant} {requestId : Uuid} {ids : Nat → Uuid × Uuid × Uuid}
    {r : CreateRequest} (h : createRequest cfg utc requestId ids r s = .ok t) :
    Transs cfg mode s t := by
  unfold createRequest at h
  obtain ⟨_, _, h⟩ := ok_bind h
  obtain ⟨_, _, h⟩ := ok_bind h
  split at h
  · obtain ⟨_, _, h⟩ := ok_bind h
    cases ok_pure h
    exact ReflTransGen.refl
  · obtain ⟨dataset, _, h⟩ := ok_bind h
    obtain ⟨_, _, h⟩ := ok_bind h
    obtain ⟨_, _, h⟩ := ok_bind h
    obtain ⟨snapshot, _, h⟩ := ok_bind h
    obtain ⟨days, _, h⟩ := ok_bind h
    obtain ⟨requests, hreq, h⟩ := ok_bind h
    obtain ⟨s', hitems, h⟩ := ok_bind h
    have hreq := need_ok.mp hreq
    generalize hrows : days.zipIdx.map (fun (x : CalendarDay × Nat) =>
      ((ids x.2).2, newItem cfg utc requestId (ids x.2).1 x.1)) = rows at h hitems hreq
    have hnew : ∀ x ∈ rows.map (·.2), x.requestId = requestId ∧
        (x.status = .pending ∨ x.status = .skippedCalendar) := by
      intro x hx
      rw [← hrows] at hx
      simp only [List.map_map, List.mem_map, Function.comp] at hx
      obtain ⟨d, _, rfl⟩ := hx
      exact ⟨rfl, newItem_status⟩
    have hmem := (Table.mem_insert? hreq).mpr (Or.inr rfl)
    have hadd : Transs cfg mode { s with requests } s' ∧ (∀ x ∈ rows.map (·.2), x ∈ s'.items) ∧
        ∀ i ∈ s.items, i ∈ s'.items := by
      refine addItems_transs hmem (fun x hx => ?_) hitems
      obtain ⟨hid, hstatus⟩ := hnew x hx
      refine ⟨hid, by rcases hstatus with hs | hs <;> simp [hs], fun hlive => ?_⟩
      -- a pending day keeps the request from being completed at once
      have hpending : x.status = .pending := by
        rcases hstatus with hs | hs
        · exact hs
        · rw [hs] at hlive; cases hlive
      have hall : (rows.map (·.2)).all (·.status == .skippedCalendar) = false := by
        rw [List.all_eq_false]
        exact ⟨x, hx, by simp [hpending]⟩
      simp [newRequest, hall, RequestStatus.live]
    refine ReflTransGen.head (.request hreq) (ReflTransGen.trans hadd.1 ?_)
    refine enqueueItems_transs (fun row hrow => ?_) h
    exact hadd.2.1 row.2 (List.mem_map.mpr ⟨row, hrow, rfl⟩)

end FinDB.ProviderWork
