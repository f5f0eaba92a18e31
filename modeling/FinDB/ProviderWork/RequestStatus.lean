import FinDB.ProviderWork.Finishing
import FinDB.ProviderWork.Preview

/-! # The status of a request and of its items

In every reachable state a request says what its items are, and what has ended
keeps its status. A claim does not read the status of the item it starts; it
never starts an ended one because the work of an item that ended before its
request has ended too. -/
namespace FinDB.ProviderWork
open FinDB.Lib Relation

variable {cfg : Config} {mode : Mode} {s t u : Db} {may : Uuid → Prop} {now utc : Instant}

/-! ## Works that are over -/

/-- The work of an item that ended before its request is over. -/
def Retired (s : Db) : Prop :=
  ∀ i, EndedEarly s i → ∀ w ∈ s.works, w.stableKey = .historical i.itemId → w.state.terminal = true

/-- Historical works that are over stay so. -/
def StaysOver (s t : Db) : Prop :=
  ∀ w ∈ s.works, w.kind = .historical → w.state.terminal = true →
    ∀ w' ∈ t.works, w'.workId = w.workId → w'.state.terminal = true

theorem trans_staysOver (h : Trans cfg mode s t) (hs : Shape s) : StaysOver s t := by
  intro w hw hk hterm w' hw' hid
  have hfree : ¬ Holds s w := by
    rintro ⟨a, held⟩
    exact hs.ne_of_held held hw hterm rfl
  cases trans_workMoved h hw hw' hid with
  | kept => exact hterm
  | frozen => exact hterm
  | started queued =>
    rw [queued] at hterm
    cases hterm
  | resumed holds | blocked holds | requeued holds => exact absurd holds hfree
  | settled _ _ _ final _ => exact Outcome.workState_terminal final
  | cancelled => rfl
  | reopened _ daily _ | calendarClosed _ daily _ =>
    rw [hk] at daily
    cases daily

theorem transs_staysOver (h : Transs cfg mode s t) (hs : Shape s) : StaysOver s t := by
  induction h with
  | refl =>
    intro w hw _ hterm w' hw' hid
    rw [Table.eq_of_key hw' hw hid]
    exact hterm
  | @tail u v hsu huv ih =>
    intro w hw hk hterm w' hw' hid
    obtain ⟨x, hx, hsame⟩ := transs_keepsWorks hsu w hw
    have hover := ih w hw hk hterm x hx hsame.workId
    exact trans_staysOver huv (transs_inv (fun _ _ => trans_shape) hsu hs) x hx
      (hsame.kind.trans hk) hover w' hw' (hid.trans hsame.workId.symm)

theorem Reachable.keys (h : Reachable cfg s) :
    ∀ v ∈ s.works, ∀ w ∈ s.works, v.stableKey = w.stableKey → v = w := by
  refine h.transInv (I := fun s => ∀ v ∈ s.works, ∀ w ∈ s.works, v.stableKey = w.stableKey → v = w)
    (fun registry v hv => absurd hv (Table.not_mem_empty v)) (fun s t henv hs => ?_)
    fun _ _ => trans_keys
  rw [henv.works]
  exact hs

/-! ## What an operation does to the requests -/

/-- New works belong to live items. -/
def NewWorks (s t : Db) : Prop :=
  ∀ w' ∈ t.works, (∃ w ∈ s.works, w.workId = w'.workId) ∨
    ∀ i ∈ t.items, w'.stableKey = .historical i.itemId → i.status.live = true

theorem WorksFrom.newWorks (h : WorksFrom s t) : NewWorks s t := by
  intro w' hw'
  rcases h w' hw' with hold | hne
  · exact Or.inl hold
  · exact Or.inr fun i _ hkey => absurd hkey (hne i.itemId)

/-- The effect of an operation on requests, items and their works. -/
structure Effect (may : Uuid → Prop) (s t : Db) : Prop where
  aggregate : (∀ q ∈ s.requests, Aggregate s q) → ∀ q ∈ t.requests, Aggregate t q
  settled : Settled s t
  quiet : Quiet may s t
  works : NewWorks s t
  finished : ∀ itemId, may itemId → ∀ w ∈ t.works, w.stableKey = .historical itemId →
    w.state.terminal = true

theorem Moves.effect (h : Moves may s t) (hreq : RequestsEnded s) (hworks : WorksFrom s t)
    (hfin : ∀ itemId, may itemId → ∀ w ∈ t.works, w.stableKey = .historical itemId →
      w.state.terminal = true) : Effect may s t :=
  ⟨h.aggregate, (Moves.settled h hreq.parent).1, Moves.quiet h hreq.parent, hworks.newWorks, hfin⟩

theorem Beside.effect (h : Beside s t) (hreq : RequestsEnded s) : Effect (fun _ => False) s t :=
  Moves.effect h.same.move.single hreq h.works fun _ hm => hm.elim

theorem Retired.step (hr : Retired s) (h : Effect may s t) (hkeep : KeepsWorks s t)
    (hover : StaysOver s t) (hrows : ∀ w ∈ s.works, HistoricalRow s w) : Retired t := by
  intro i' he w' hw' hkey
  by_cases hm : may i'.itemId
  · exact h.finished i'.itemId hm w' hw' hkey
  obtain ⟨i, hi, hid⟩ := h.quiet i' he hm
  rcases h.works w' hw' with ⟨w, hw, hwid⟩ | hlive
  · have hsame := hkeep.row hw hw' hwid.symm
    have hwkey : w.stableKey = .historical i.itemId := by rw [← hsame.stableKey, hkey, hid]
    exact hover w hw ((hrows w hw).1 i.itemId hwkey) (hr i hi w hw hwkey) w' hw' hwid.symm
  · have hoff := hlive i' he.mem hkey
    rw [he.ended] at hoff
    cases hoff

theorem Reachable.retired_step (hr : Reachable cfg s) (op : Op) (hret : Retired s)
    (h : Effect may s (apply cfg op s)) : Retired (apply cfg op s) := by
  obtain ⟨m, henv, htrans⟩ := @apply_refines cfg .free s op hr.requestsEnded False.elim
    (fun _ => trivial) fun _ => trivial
  have hshape : Shape m := hr.shape.congr henv.works henv.attempts (by rw [henv.owner])
  refine hret.step h (fun w hw => ?_) (fun w hw => ?_) hr.rows
  · rw [← henv.works] at hw
    exact transs_keepsWorks htrans w hw
  · rw [← henv.works] at hw
    exact transs_staysOver htrans hshape w hw

/-! ## The calls that end requests -/

theorem cancelRequest_effect {requestId : Uuid} {actor : String} (hreq : RequestsEnded s)
    (h : cancelRequest now requestId actor s = .ok t) : Effect (fun _ => False) s t :=
  Moves.effect (cancelRequest_move h).single hreq (cancelRequest_works h).worksFrom
    fun _ hm => hm.elim

theorem expireRequests_effect (hreq : RequestsEnded s) :
    Effect (fun _ => False) s (expireRequests cfg now s) :=
  Moves.effect expireRequests_moves hreq (cancels_works.expireRequests s).worksFrom
    fun _ hm => hm.elim

theorem reconcile_effect (hreq : RequestsEnded s) :
    Effect (fun _ => False) s (reconcileCancelledQueue cfg now utc s) :=
  Moves.effect reconcile_moves hreq (cancels_works.reconcile s).worksFrom fun _ hm => hm.elim

theorem Completes.effect (h : Completes s t) (hr : Reachable cfg s) (ht : Reachable cfg t) :
    ∃ may, Effect may s t := by
  obtain ⟨may, hmoves, hfin⟩ := h.moves
  refine ⟨may, Moves.effect hmoves hr.requestsEnded h.works fun itemId hm w hw hkey => ?_⟩
  obtain ⟨w', hw', hkey', hterm⟩ := hfin itemId hm
  rw [ht.keys w hw w' hw' (hkey.trans hkey'.symm)]
  exact hterm

/-! ## Leasing -/

/-- The item a round is held for is still to be acquired while its request is. -/
theorem Retired.live (hret : Retired s) (hr : Reachable cfg s) {work : Work} {attempt : Attempt}
    {item : Item} {request : Request} (held : Held s work attempt) (hk : work.kind = .historical)
    (href : work.itemRef = some item.itemId) (hmem : item ∈ s.items)
    (hrmem : request ∈ s.requests) (hrid : request.requestId = item.requestId)
    (hlive : request.status.live = true) : item.status.live = true := by
  by_contra hended
  obtain ⟨row, _, hkey, hscope⟩ := (hr.rows work held.workMem).2 hk
  have hid : row.itemId = item.itemId := by simpa [Work.itemRef, hscope] using href
  have hearly : EndedEarly s item := by
    refine ⟨hmem, by simpa using hended, fun q hq hqid => ?_⟩
    rw [Table.eq_of_key hq hrmem (hqid.trans hrid.symm)]
    exact hlive
  have hover := hret item hearly work held.workMem (by rw [hkey, hid])
  exact hr.shape.ne_of_held held held.workMem hover rfl

theorem projectItem_moves {work : Work} {attempt : Attempt} {item : Item} {request : Request}
    (hr : Reachable cfg s) (hret : Retired s) (held : Held s work attempt)
    (hk : work.kind = .historical) (hmem : item ∈ s.items)
    (href : work.itemRef = some item.itemId)
    (hreq : s.requests.find? item.requestId = some request)
    (h : projectItem cfg now s work item request = .ok t) :
    Moves may s t ∧ SameWorks s t := by
  unfold projectItem at h
  simp only at h
  split at h
  · cases h
    exact ⟨ReflTransGen.refl, .of_eq rfl⟩
  · rename_i hgate
    obtain ⟨closed, _, h⟩ := ok_bind h
    cases ok_pure h
    obtain ⟨hrmem, hrid⟩ := Table.find?_eq_some.mp hreq
    split
    · exact ⟨ReflTransGen.refl, .of_eq rfl⟩
    · split
      · exact ⟨(setItem_move (by intro _; rfl) (by intro _; rfl) (by intro _; rfl)).single,
          .of_eq rfl⟩
      · rename_i hprepared
        have hlive : request.status.live = true := by simp_all
        refine ⟨(startItem_move hmem (hret.live hr held hk href hmem hrmem hrid hlive)
          fun p hp hpid => ?_).single, .of_eq rfl⟩
        rw [Table.eq_of_key hp hrmem (hpid.trans hrid.symm)]
        exact hlive

theorem claimNextItem_effect {datasets : List DatasetKey} {identity : Option FenceIdentity}
    (hr : Reachable cfg s) (hret : Retired s)
    (h : claimNextItem cfg now utc datasets identity s = .ok t) : Effect (fun _ => False) s t := by
  have hr' : Reachable cfg (expireRequests cfg now s) := hr.step (.expireRequests now)
  have hret' : Retired (expireRequests cfg now s) :=
    hr.retired_step (.expireRequests now) hret (expireRequests_effect hr.requestsEnded)
  have hmoves : Moves (fun _ => False) s (expireRequests cfg now s) := expireRequests_moves
  have hworks : SameWorks s (expireRequests cfg now s) := cancels_works.expireRequests s
  suffices hrest : Moves (fun _ => False) (expireRequests cfg now s) t ∧
      SameWorks (expireRequests cfg now s) t from
    Moves.effect (ReflTransGen.trans hmoves hrest.1) hr.requestsEnded
      (hworks.trans hrest.2).worksFrom fun _ hm => hm.elim
  unfold claimNextItem at h
  clear hmoves hworks
  revert h hr' hret'
  generalize expireRequests cfg now s = s'
  intro h hr' hret'
  obtain ⟨id, _, h⟩ := ok_bind h
  obtain ⟨⟨work, attempt⟩, hf, h⟩ := ok_bind h
  obtain ⟨_, hscope, h⟩ := ok_bind h
  have hscope := ensure_ok.mp hscope
  simp only [Bool.and_eq_true, beq_iff_eq] at hscope
  obtain ⟨itemId, href, h⟩ := ok_bind h
  have href := need_ok.mp href
  split at h
  · cases ok_pure h
    exact ⟨ReflTransGen.refl, .of_eq rfl⟩
  · rename_i item hitem
    obtain ⟨hmem, hid⟩ := Table.find?_eq_some.mp hitem
    obtain ⟨request, hreq, h⟩ := ok_bind h
    exact projectItem_moves hr' hret' (fence_fenced (mapError_ok hf)).held hscope.1 hmem
      (hid ▸ href) (need_ok.mp hreq) h

/-! ## Creating a request -/

theorem enqueue_works {ids : Uuid × Uuid} {r : EnqueueRequest} {w : Work}
    (h : enqueue utc ids r s = .ok (t, w)) {w' : Work} (hw' : w' ∈ t.works) :
    w' ∈ s.works ∨ w'.stableKey = r.stableKey := by
  unfold enqueue at h
  obtain ⟨_, _, h⟩ := ok_bind h
  split at h
  · obtain ⟨_, _, h⟩ := ok_bind h
    cases ok_pure h
    exact Or.inl hw'
  · obtain ⟨works, hw, h⟩ := ok_bind h
    obtain ⟨s', ha, h⟩ := ok_bind h
    cases ok_pure h
    obtain ⟨_, _, _, _, _, rfl⟩ := addAttempt_ok ha
    rcases (Table.mem_insert? (need_ok.mp hw)).mp hw' with hold | rfl
    · exact Or.inl hold
    · exact Or.inr rfl

/-- Only pending rows get a work. -/
theorem enqueueItems_works {datasetKey : DatasetKey} {rows : List ((Uuid × Uuid) × Item)}
    (h : rows.foldlM (enqueueItem cfg utc datasetKey) s = .ok t) {w' : Work} (hw' : w' ∈ t.works) :
    w' ∈ s.works ∨
      ∃ row ∈ rows, row.2.status = .pending ∧ w'.stableKey = .historical row.2.itemId := by
  induction rows generalizing s with
  | nil =>
    cases ok_pure h
    exact Or.inl hw'
  | cons row rows ih =>
    rw [List.foldlM_cons] at h
    obtain ⟨s', hone, h⟩ := ok_bind h
    rcases ih h with hold | ⟨row', hrow, hnew⟩
    · unfold enqueueItem at hone
      split at hone
      · rename_i hpending _
        obtain ⟨⟨s'', w⟩, henq, hone⟩ := ok_bind hone
        cases ok_pure hone
        rcases enqueue_works henq hold with hold | hkey
        · exact Or.inl hold
        · exact Or.inr ⟨row, List.mem_cons_self, hpending, hkey⟩
      · cases hone
        exact Or.inl hold
    · exact Or.inr ⟨row', List.mem_cons_of_mem _ hrow, hnew⟩

theorem addItems_works {xs : List Item} (h : xs.foldlM addItem s = .ok t) : t.works = s.works := by
  induction xs generalizing s with
  | nil =>
    cases ok_pure h
    rfl
  | cons x xs ih =>
    rw [List.foldlM_cons] at h
    obtain ⟨s', hadd, h⟩ := ok_bind h
    obtain ⟨items, _, rfl⟩ := addItem_ok hadd
    have hrest := ih h
    exact hrest

/-- A new work belongs to a new pending item. -/
theorem createRequest_works {requestId : Uuid} {ids : Nat → Uuid × Uuid × Uuid} {r : CreateRequest}
    {days : List CalendarDay} (hc : Created cfg utc requestId ids r days s t)
    (h : createRequest cfg utc requestId ids r s = .ok t) {w' : Work} (hw' : w' ∈ t.works) :
    w' ∈ s.works ∨ ∃ x ∈ newItems cfg utc requestId ids days, x.status = .pending ∧
      w'.stableKey = .historical x.itemId := by
  unfold createRequest at h
  obtain ⟨_, _, h⟩ := ok_bind h
  obtain ⟨_, _, h⟩ := ok_bind h
  split at h
  · obtain ⟨_, _, h⟩ := ok_bind h
    cases ok_pure h
    exact Or.inl hw'
  · obtain ⟨_, _, h⟩ := ok_bind h
    obtain ⟨_, _, h⟩ := ok_bind h
    obtain ⟨_, _, h⟩ := ok_bind h
    obtain ⟨_, _, h⟩ := ok_bind h
    obtain ⟨days', hdays, h⟩ := ok_bind h
    obtain ⟨_, _, h⟩ := ok_bind h
    obtain ⟨s', hitems, h⟩ := ok_bind h
    have hsame : days' = days := by
      have hd := mapError_ok hdays
      rw [hc.calendar] at hd
      cases hd
      rfl
    subst hsame
    rcases enqueueItems_works h hw' with hold | ⟨row, hrow, hpending, hkey⟩
    · rw [addItems_works hitems] at hold
      exact Or.inl hold
    · obtain ⟨⟨d, i⟩, hd, rfl⟩ := List.mem_map.mp hrow
      exact Or.inr ⟨_, List.mem_map.mpr ⟨(d, i), hd, rfl⟩, hpending, hkey⟩

section Created
variable {requestId : Uuid} {ids : Nat → Uuid × Uuid × Uuid} {r : CreateRequest}
  {days : List CalendarDay}

theorem newItems_status {x : Item} (hx : x ∈ newItems cfg utc requestId ids days) :
    x.requestId = requestId ∧ (x.status = .pending ∨ x.status = .skippedCalendar) := by
  obtain ⟨d, _, itemId, rfl⟩ := mem_newItems hx
  exact ⟨rfl, newItem_status⟩

/-- The new request is completed when every day is skipped, and queued otherwise. -/
theorem newRequest_aggregates (snapshot : Option UniverseSnapshot) :
    Aggregates (· ∈ newItems cfg utc requestId ids days) (·.status)
      (newRequest utc requestId r snapshot (newItems cfg utc requestId ids days)).status := by
  unfold newRequest
  simp only
  split
  · rename_i hall
    intro x hx
    exact Or.inr (by simpa using List.all_eq_true.mp hall x hx)
  · rename_i hall
    obtain ⟨x, hx, hopen⟩ := List.all_eq_false.mp (Bool.eq_false_iff.mpr hall)
    have hpending : ∀ y ∈ newItems cfg utc requestId ids days, y.status ≠ .failed ∧
        y.status ≠ .cancelled := by
      intro y hy
      rcases (newItems_status hy).2 with hs | hs <;> simp [hs]
    refine ⟨⟨x, hx, ?_⟩, hpending⟩
    rcases (newItems_status hx).2 with hs | hs
    · exact congrArg ItemStatus.live hs
    · rw [hs] at hopen
      exact absurd rfl hopen

/-- The rows of the other requests are the old ones. -/
theorem Created.of_old (h : Created cfg utc requestId ids r days s t) {q : Request}
    (hq : q.requestId ≠ requestId) (i : Item) : Of t q i ↔ Of s q i := by
  unfold Of
  rw [h.items]
  constructor
  · rintro ⟨hi | hi, hid⟩
    · exact ⟨hi, hid⟩
    · exact absurd (hid.symm.trans (newItems_status hi).1) hq
  · rintro ⟨hi, hid⟩
    exact ⟨Or.inl hi, hid⟩

theorem Created.effect (h : Created cfg utc requestId ids r days s t) (hreq : RequestsEnded s)
    (hrows : ∀ w ∈ s.works, HistoricalRow s w)
    (hcall : createRequest cfg utc requestId ids r s = .ok t) :
    ∃ may, Effect may s t := by
  obtain ⟨snapshot, requests, hins, hrequests⟩ := h.request
  have hfresh : ∀ q ∈ s.requests, q.requestId ≠ requestId := Table.insert?_fresh hins
  have hmem : ∀ q, q ∈ t.requests ↔ q ∈ s.requests ∨
      q = newRequest utc requestId r snapshot (newItems cfg utc requestId ids days) := fun q => by
    rw [hrequests]
    exact Table.mem_insert? hins
  refine ⟨fun itemId => ∃ x ∈ newItems cfg utc requestId ids days, x.itemId = itemId ∧
    x.status.live = false, ?_, ?_, ?_, ?_, ?_⟩
  · intro hs q hq
    rcases (hmem q).mp hq with hq | rfl
    · have hagg := hs q hq
      unfold Aggregate at hagg ⊢
      rwa [show Of t q = Of s q from funext fun i => propext (h.of_old (hfresh q hq) i)]
    · have hof : Of t (newRequest utc requestId r snapshot
          (newItems cfg utc requestId ids days)) = (· ∈ newItems cfg utc requestId ids days) := by
        funext i
        refine propext ⟨fun hi => ?_, fun hi => ⟨(h.items i).mpr (Or.inr hi), (newItems_status hi).1⟩⟩
        rcases (h.items i).mp hi.1 with hold | hnew
        · obtain ⟨q, hq, hid⟩ := hreq.parent i hold
          exact absurd (hid.trans hi.2) (hfresh q hq)
        · exact hnew
      unfold Aggregate
      rw [hof]
      exact newRequest_aggregates snapshot
  · exact ⟨fun q hq _ => ⟨q, (hmem q).mpr (Or.inl hq), rfl, rfl⟩,
      fun i hi _ => ⟨i, (h.items i).mpr (Or.inl hi), rfl, rfl, rfl⟩⟩
  · intro i he hno
    rcases (h.items i).mp he.mem with hold | hnew
    · exact ⟨i, ⟨hold, he.ended, fun q hq hid => he.live q ((hmem q).mpr (Or.inl hq)) hid⟩, rfl⟩
    · exact absurd ⟨i, hnew, rfl, he.ended⟩ hno
  · intro w' hw'
    rcases createRequest_works h hcall hw' with hold | ⟨x, hx, hpending, hkey⟩
    · exact Or.inl ⟨w', hold, rfl⟩
    · refine Or.inr fun i hi hik => ?_
      have hid : i.itemId = x.itemId := by
        rw [hkey] at hik
        exact (StableKey.historical.inj hik).symm
      rw [Table.eq_of_key hi ((h.items x).mpr (Or.inr hx)) hid, hpending]
      rfl
  · rintro _ ⟨x, hx, rfl, hended⟩ w hw hkey
    rcases createRequest_works h hcall hw with hold | ⟨y, hy, hpending, hykey⟩
    · -- an old work belongs to an old item
      obtain ⟨i, hi, hik, _⟩ := (hrows w hold).2 ((hrows w hold).1 _ hkey)
      rw [hkey] at hik
      exact absurd (StableKey.historical.inj hik).symm (h.fresh x hx i hi)
    · rw [hkey] at hykey
      have hxy : x = y := Table.eq_of_key ((h.items x).mpr (Or.inr hx))
        ((h.items y).mpr (Or.inr hy)) (StableKey.historical.inj hykey)
      rw [hxy, hpending] at hended
      cases hended

end Created

/-! ## Every operation -/

theorem settled_effect {x : Except Err Db} (hreq : RequestsEnded s)
    (h : ∀ t, x = .ok t → ∃ may, Effect may s t) : ∃ may, Effect may s (settled s x) := by
  cases hx : x with
  | error e => exact ⟨_, (Beside.refl s).effect hreq⟩
  | ok t => exact h t hx

theorem commit_effect {x : Except (Raised Err Db) Db} (hreq : RequestsEnded s)
    (h : Leaves x (commit s x) → ∃ may, Effect may s (commit s x)) :
    ∃ may, Effect may s (commit s x) := by
  rcases commit_leaves s x with hx | hx
  · rw [hx]
    exact ⟨_, (Beside.refl s).effect hreq⟩
  · exact h hx

/-- Reconciling first and a call beside it. -/
theorem reconcile_beside_effect (hr : Reachable cfg s)
    (h : Beside (reconcileCancelledQueue cfg now utc s) t) : Effect (fun _ => False) s t := by
  have hworks : SameWorks s (reconcileCancelledQueue cfg now utc s) := cancels_works.reconcile s
  exact Moves.effect (ReflTransGen.tail reconcile_moves h.same.move) hr.requestsEnded
    (h.works.after hworks) fun _ hm => hm.elim

theorem apply_effect (hr : Reachable cfg s) (hret : Retired s) (op : Op) :
    ∃ may, Effect may s (apply cfg op s) := by
  have hreq := hr.requestsEnded
  have hbeside : ∀ t, Beside s t → ∃ may, Effect may s t := fun t h => ⟨_, h.effect hreq⟩
  cases op with
  | enqueue utc ids datasets r =>
    exact settled_effect hreq fun t h => hbeside t (enqueueEndpoint_beside h)
  | claim now utc token r =>
    refine settled_effect hreq fun t h => ?_
    rcases claimDb_beside h with h | h
    · exact hbeside t h
    · exact ⟨_, reconcile_beside_effect hr h⟩
  | mutate utc datasets identity action =>
    exact commit_effect hreq fun h => hbeside _ (mutate_beside h)
  | ingest utc d dataset date runId sha members replay =>
    exact settled_effect hreq fun t h => hbeside t (ingest_beside h)
  | createRequest utc requestId ids r =>
    refine settled_effect hreq fun t h => ?_
    rcases createRequest_ok h with ⟨_, rfl⟩ | ⟨days, hc⟩
    · exact hbeside _ (.refl _)
    · exact hc.effect hreq hr.rows h
  | cancelRequest utc requestId actor =>
    exact settled_effect hreq fun t h => ⟨_, cancelRequest_effect hreq h⟩
  | expireRequests now => exact ⟨_, expireRequests_effect hreq⟩
  | reconcileCancelledQueue now utc => exact ⟨_, reconcile_effect hreq⟩
  | claimNextItem now utc datasets identity =>
    exact settled_effect hreq fun t h => ⟨_, claimNextItem_effect hr hret h⟩
  | completeItem utc r =>
    have ht := hr.step (.completeItem utc r)
    exact commit_effect hreq fun h => (completeEndpoint_completes hreq h).effect hr ht
  | repairApply utc newId repairIds r =>
    exact settled_effect hreq fun t h => hbeside t (repairApply_beside h)
  | calendarClosureApply utc r =>
    exact settled_effect hreq fun t h => hbeside t (calendarClosureApply_beside h)
  | rerunFromRaw utc ids r =>
    exact settled_effect hreq fun t h => hbeside t (rerunFromRaw_beside h)
  | attest host => exact settled_effect hreq fun t h => hbeside t (attest_beside h)
  | setRegistry | addEvidence | addIssue | addNoData => exact hbeside _ (.of_works rfl rfl rfl)

/-- Requests say what their items are, and early ends are final. -/
structure Sound (s : Db) : Prop where
  aggregate : ∀ q ∈ s.requests, Aggregate s q
  retired : Retired s

theorem Sound.step (h : Sound s) (hr : Reachable cfg s) (op : Op) :
    Sound (apply cfg op s) ∧ Settled s (apply cfg op s) := by
  obtain ⟨may, heff⟩ := apply_effect hr h.retired op
  exact ⟨⟨heff.aggregate h.aggregate, hr.retired_step op h.retired heff⟩, heff.settled⟩

theorem sound_init (registry : Registry) : Sound (Db.init registry) :=
  ⟨fun q hq => absurd hq (Table.not_mem_empty q), fun i hi => absurd hi.mem (Table.not_mem_empty i)⟩

theorem Reachable.sound (h : Reachable cfg s) : Sound s := by
  obtain ⟨registry, hrun⟩ := h
  have hboth : Reachable cfg s ∧ Sound s := by
    refine StepsIf.inv (I := fun u => Reachable cfg u ∧ Sound u) (fun u op hu _ => ?_) hrun
      ⟨⟨registry, StepsIf.refl _⟩, sound_init registry⟩
    exact ⟨hu.1.step op, (hu.2.step hu.1 op).1⟩
  exact hboth.2

theorem Steps.settled (h : Steps cfg s t) (hr : Reachable cfg s) : Settled s t :=
  StepsIf.rel (I := Reachable cfg) Settled.refl (fun _ _ _ h h' => h.trans h')
    (fun _ op hu _ => hu.step op) (fun _ op hu _ => (hu.sound.step hu op).2) h hr

/-! ## The window of creation and the cutoff of expiry -/

/-- The window a request is created in starts at or after the cutoff of the same
instant, although one is measured in UTC and the other on the provider's clock. -/
theorem expiryCutoff_le_window
    (hzone : providerCurrentDate cfg utc ≤ (cfg.clock.localTime "UTC" utc).date + 1)
    {start stop : Date} (h : InWindow cfg (requestToday cfg utc) start stop) :
    expiryCutoff cfg utc ≤ start := by
  obtain ⟨hstart, _⟩ := h
  unfold expiryCutoff
  unfold requestToday at hstart
  cases hp : cfg.provider with
  | twelveData | finlab =>
    simp only [hp] at hstart ⊢
    linarith
  | shioaji | taifex | factset =>
    simp only [hp] at hstart ⊢
    linarith

theorem Created.unexpired {requestId : Uuid} {ids : Nat → Uuid × Uuid × Uuid} {r : CreateRequest}
    {days : List CalendarDay} {cal : Calendar.Config} {calendar : Calendar.State} {market : String}
    (h : Created cfg utc requestId ids r days s t)
    (hzone : providerCurrentDate cfg utc ≤ (cfg.clock.localTime "UTC" utc).date + 1)
    (hcal : s.registry.effectiveDays r.datasetKey r.startDate r.endDate =
      calendarDays cal calendar market r.startDate r.endDate)
    (htoday : ∀ today, r.today = some today → requestToday cfg utc ≤ today)
    {i : Item} (hi : i ∈ newItems cfg utc requestId ids days) :
    expiryCutoff cfg utc ≤ i.tradeDate := by
  have hdates := calendarDays_dates (hcal ▸ h.calendar)
  obtain ⟨d, hd, _, rfl⟩ := mem_newItems hi
  have hrange : d.tradeDate ∈ dateRange r.startDate r.endDate := by
    rw [← hdates]
    exact List.mem_map_of_mem hd
  obtain ⟨hstart, _⟩ := mem_dateRange.mp hrange
  obtain ⟨hwindow, _⟩ := h.window
  -- an explicit day only moves the window forward
  have hnow : requestToday cfg utc ≤ r.todayAt cfg utc := by
    unfold CreateRequest.todayAt
    cases ht : r.today with
    | none => exact le_refl _
    | some today => exact htoday today ht
  have hin : InWindow cfg (requestToday cfg utc) r.startDate (requestToday cfg utc) :=
    ⟨by linarith, le_refl _⟩
  exact le_trans (expiryCutoff_le_window hzone hin) hstart

/-! ## The claim over all runs -/

/-- A request for a Friday and a Saturday, made on the following Tuesday. -/
def weekendRequest : CreateRequest := ⟨"tw_equity_eod", 36, 37, "request", none⟩

/-- The state it leaves in an empty FinLab database. -/
def weekendRequested : Db :=
  runAll (apply (utcConfig .finlab))
    [.createRequest (40 * day) 10 (fun n => (11 + n, 1, 2)) weekendRequest]
    (Db.init (cutoverRegistry .finlab "TW"))

end FinDB.ProviderWork
