import FinDB.ProviderWork.RefinementHistorical

/-! # The remaining operations, and all of them

`complete_item` ends the item before the work in the sequence below. Nothing a
final settlement reads depends on the item, so the state is the one the source
reaches by settling first. -/
namespace FinDB.ProviderWork
open FinDB.Lib Relation

variable {cfg : Config} {mode : Mode} {s t : Db} {utc : Instant}

/-! ## complete_item -/

theorem itemEnded_of_row {work : Work} {i : Item} (hi : i ∈ s.items)
    (hkey : work.stableKey = .historical i.itemId) (hlive : i.status.live = false) :
    ItemEnded s work := by
  intro _ j hj hjk
  rw [hkey] at hjk
  cases Table.eq_of_key hi hj (by injection hjk)
  exact hlive

theorem close_frame {identity : FenceIdentity} (h : close cfg utc identity s = .ok t) :
    t.works = s.works ∧ t.items = s.items ∧ t.requests = s.requests := by
  unfold close at h
  obtain ⟨⟨work, attempt⟩, _, h⟩ := ok_bind h
  cases ok_pure h
  split <;> exact ⟨rfl, rfl, rfl⟩

/-- The drain branch settles a work whose item has ended. -/
theorem drainItem_transs {identity : FenceIdentity} {work : Work} {item : Item} {r : CompleteItem}
    (row : ∀ w ∈ s.works, w.workId = identity.workId → w.stableKey = .historical item.itemId)
    (hmem : item ∈ s.items) (hlive : item.status.live = false)
    (h : Leaves (drainItem cfg utc identity work item r s) t) : Transs cfg mode s t := by
  unfold drainItem at h
  obtain ⟨s', hclose, h⟩ := leaves_plain_bind h
  obtain ⟨hworks, hitems, _⟩ := close_frame hclose
  refine ReflTransGen.trans (close_transs hclose) (settle_transs (fun _ w _ hset _ => ?_) h)
  have hw := hset.fenced.workMem
  rw [hworks] at hw
  exact itemEnded_of_row (hitems ▸ hmem) (row w hw hset.fenced.workId) hlive

theorem ended_live (r : CompleteItem) (i : Item) : (r.ended utc i).status.live = false := by
  unfold CompleteItem.ended ItemOutcome.status
  cases r.outcome <;> rfl

theorem ended_ends (r : CompleteItem) : EndsItem (r.ended utc) :=
  fun i => ⟨rfl, Or.inr (ended_live r i)⟩

theorem delivered_ended {st : ItemStatus} (h : st.delivered = true) : st.live = false := by
  cases st <;> simp_all [ItemStatus.delivered, ItemStatus.live]

/-- The request and the siblings follow an item that has ended. -/
theorem endRequest_item_transs {r : CompleteItem} {item : Item}
    (hended : ∀ i ∈ s.items, i.itemId = item.itemId → i.status.live = false)
    (hlive : ∀ q ∈ s.requests, q.requestId = item.requestId → q.status.live = true) :
    Transs cfg mode s (r.endRequest utc item s) := by
  unfold CompleteItem.endRequest
  split
  · have hloop : ∀ (u : Db) (xs : List Item), xs.foldl (failSibling utc item.itemId) u =
        (xs.filter fun x => x.status.live && x.itemId != item.itemId).foldl (expireSibling utc) u := by
      intro u xs
      rw [List.foldl_filter]
      rfl
    simp only [hloop]
    refine endRequest_transs _ (fun _ => rfl)
      ((snapshot_itemsOf item.requestId).filter _) (fun i hi hir hl => ?_) hlive
    refine ⟨i, List.mem_filter.mpr ⟨mem_itemsOf hi hir, ?_⟩, rfl⟩
    have hne : i.itemId ≠ item.itemId := by
      intro he
      rw [hended i hi he] at hl
      cases hl
    simp [hl, hne]
  · split
    · rename_i hall
      refine Trans.single (.endRequest item.requestId _ (by intro _; rfl)
        (by intro _; simp only; split <;> rfl) (fun i hi hir => ?_) hlive)
      exact delivered_ended (List.all_eq_true.mp hall i (mem_itemsOf hi hir))
    · exact ReflTransGen.refl

/-- A settlement reads no item, so it may follow the item's end. -/
theorem Checked.setItem {work : Work} {validated : Option Uuid} {r : Settlement} {itemId : Uuid}
    {f : Item → Item} {hf} (h : Checked cfg s work validated r) :
    Checked cfg (s.setItem itemId f hf) work validated r :=
  ⟨h.final, h.prepared, h.terminal, h.evidence⟩

theorem Held.setItem {work : Work} {attempt : Attempt} {itemId : Uuid} {f : Item → Item} {hf}
    (h : Held s work attempt) : Held (s.setItem itemId f hf) work attempt :=
  ⟨h.owned, h.mem, h.workMem, h.ofWork⟩

theorem settlement_final {eod : Option EODCompletionEvidence} {workId : Uuid} {work : Work}
    {u : Db} (r : CompleteItem) :
    ((r.settlement cfg u workId eod).effective s work).outcome ≠ .retry := by
  rcases effective_outcome (s := s) (r.settlement cfg u workId eod) work with ⟨he, _⟩ | ⟨_, he⟩
  · rw [he]
    unfold CompleteItem.settlement ItemOutcome.outcome
    cases r.outcome <;> simp
  · rw [he]; simp

/-- The leased branch: the item ends, then its work, then its request. -/
theorem finishItem_transs {identity : FenceIdentity} {work : Work} {item : Item}
    {request : Request} {r : CompleteItem} (hreq : RequestsEnded s)
    (row : ∀ w ∈ s.works, w.workId = identity.workId → w.stableKey = .historical item.itemId)
    (hmem : item ∈ s.items) (hrequest : s.requests.find? item.requestId = some request)
    (h : Leaves (finishItem cfg utc identity work item request r s) t) : Transs cfg mode s t := by
  unfold finishItem at h
  obtain ⟨_, hleased, h⟩ := leaves_plain_bind h
  obtain ⟨eod, _, h⟩ := leaves_plain_bind h
  obtain ⟨s₃, hclose, h⟩ := leaves_plain_bind h
  have hleased := ensure_ok.mp hleased
  simp only [Item.leased, Bool.and_eq_true, beq_iff_eq] at hleased
  have hrun : item.status = .running := hleased.1.1.2
  obtain ⟨hrmem, hrid⟩ := Table.find?_eq_some.mp hrequest
  have hlive : request.status.live = true := by
    cases hl : request.status.live with
    | true => rfl
    | false =>
      have := hreq.ended request hrmem hl item hmem hrid.symm
      rw [hrun] at this
      cases this
  have h₂ : Transs cfg mode s (s.setItem item.itemId fun i => { i with
      resultEvidence := (keptEvidence cfg r eod i).resultEvidence }) :=
    Trans.single (.endItem item.itemId _ (by intro _; rfl)
      (by intro i; exact ⟨rfl, Or.inl rfl⟩))
  have h₃ : Transs cfg mode s s₃ := ReflTransGen.trans h₂ (close_transs hclose)
  refine ReflTransGen.trans h₃ ?_
  obtain ⟨hworks, _, hrequests⟩ := close_frame hclose
  rcases leaves_bind h with ⟨e, hkept⟩ | ⟨s₄, hsettle, h⟩
  · obtain ⟨owned, attempt, hf, hclosed, rfl⟩ := settle_kept hkept
    exact Trans.single (.drain hf.held hclosed)
  obtain ⟨owned, attempt, hset, ⟨hretry, _⟩ | ⟨hfinal, rfl⟩⟩ := settle_ok hsettle
  · exact absurd hretry (settlement_final r)
  have hf := hset.fenced
  rw [leaves_ok h]
  have hfirst : Transs cfg mode s₃ (s₃.setItem item.itemId (r.ended utc)) :=
    Trans.single (.endItem item.itemId (r.ended utc) (by intro _; rfl) (ended_ends r))
  have hended : ∀ i ∈ (s₃.setItem item.itemId (r.ended utc)).items, i.itemId = item.itemId →
      i.status.live = false := by
    intro i hi hid
    rcases (Db.mem_setItem (by intro _; rfl)).mp hi with ⟨_, hne⟩ | ⟨j, _, _, rfl⟩
    · exact absurd hid hne
    · exact ended_live r j
  have hwork : owned.stableKey = .historical item.itemId := by
    have hmem₃ := hf.workMem
    rw [hworks] at hmem₃
    exact row owned hmem₃ hf.workId
  have hfinish : Transs cfg mode (s₃.setItem item.itemId (r.ended utc))
      ((s₃.setItem item.itemId (r.ended utc)).finish attempt utc
        ((r.settlement cfg s₃ work.workId eod).effective s₃ owned)) := by
    refine Trans.single (.finish utc _ (some identity.workId) hf.held.setItem hset.closed
      (hset.checked hfinal).setItem
      fun _ _ j hj hjk => hended j hj ?_)
    rw [hwork] at hjk
    injection hjk with hid
    exact hid.symm
  refine ReflTransGen.trans hfirst (ReflTransGen.trans hfinish
    (endRequest_item_transs hended fun q hq hqr => ?_))
  have hq : q ∈ s.requests := by
    have : q ∈ s₃.requests := hq
    rwa [hrequests] at this
  rw [Table.eq_of_key hq hrmem (hqr.trans hrid.symm)]
  exact hlive

/-- In an ended request, and in one whose item ended first, the item is not live. -/
theorem drainsOnly_ended {request : Request} {item : Item} (hreq : RequestsEnded s)
    (hmem : item ∈ s.items) (hrmem : request ∈ s.requests)
    (hrid : request.requestId = item.requestId) (h : drainsOnly request item = true) :
    item.status.live = false := by
  simp only [drainsOnly, Bool.or_eq_true, Bool.and_eq_true, beq_iff_eq] at h
  rcases h with h | ⟨_, h | h⟩
  · exact hreq.ended request hrmem (by rw [h]; rfl) item hmem hrid.symm
  · rw [h]; rfl
  · rw [h]; rfl

theorem completeItem_transs {r : CompleteItem} (hreq : RequestsEnded s)
    (h : Leaves (completeItem cfg utc r s) t) : Transs cfg mode s t := by
  unfold completeItem at h
  obtain ⟨item, hitem, h⟩ := leaves_plain_bind h
  split at h
  · obtain ⟨_, _, h⟩ := leaves_plain_bind h
    rw [leaves_ok h]
    exact ReflTransGen.refl
  · obtain ⟨_, _, h⟩ := leaves_plain_bind h
    obtain ⟨id, _, h⟩ := leaves_plain_bind h
    obtain ⟨⟨work, attempt⟩, hf, h⟩ := leaves_plain_bind h
    obtain ⟨_, hscope, h⟩ := leaves_plain_bind h
    obtain ⟨item', hitem', h⟩ := leaves_plain_bind h
    obtain ⟨request, hrequest, h⟩ := leaves_plain_bind h
    have hf := fence_fenced hf
    have hscope := ensure_ok.mp hscope
    simp only [Bool.and_eq_true, beq_iff_eq] at hscope
    have hexpire : Transs cfg mode s (expireRequests cfg utc s) := expireRequests_transs
    have hfirst : Transs cfg mode s ((expireRequests cfg utc s).setItem item.itemId
        ({ · with leaseExpiresAt := s.owner.expiresAt })) :=
      ReflTransGen.tail hexpire (.endItem item.itemId _ (by intro _; rfl)
        (by intro i; exact ⟨rfl, Or.inl rfl⟩))
    revert h hrequest hitem' hfirst
    generalize (expireRequests cfg utc s).setItem item.itemId
      ({ · with leaseExpiresAt := s.owner.expiresAt }) = s₁
    intro hitem' hrequest h hfirst
    refine ReflTransGen.trans hfirst ?_
    have hreq₁ := transs_requestsEnded hfirst hreq
    obtain ⟨hmem, hid⟩ := Table.find?_eq_some.mp (need_ok.mp hitem')
    obtain ⟨hrmem, hrid⟩ := Table.find?_eq_some.mp (need_ok.mp hrequest)
    have row : ∀ w ∈ s₁.works,
        w.workId = ({ id with token := r.leaseToken } : FenceIdentity).workId →
          w.stableKey = .historical item'.itemId := by
      intro w hw hwid
      have hsame := (transs_keepsWorks hfirst).row hf.workMem hw (hwid.trans hf.workId.symm)
      rw [hsame.stableKey, hscope.2, hid]
    split at h
    · rename_i hdrain
      exact drainItem_transs row hmem (drainsOnly_ended hreq₁ hmem hrmem hrid hdrain) h
    · exact finishItem_transs hreq₁ row hmem (need_ok.mp hrequest) h

theorem completeEndpoint_transs {r : CompleteItem} (hreq : RequestsEnded s)
    (h : Leaves (completeEndpoint cfg utc r s) t) : Transs cfg mode s t := by
  unfold completeEndpoint at h
  obtain ⟨_, _, h⟩ := leaves_plain_bind h
  exact completeItem_transs hreq h

/-! ## claim -/

theorem claimFresh_transs {now : Instant} {token : Uuid} {r : ClaimRequest}
    (idle : s.owner.attemptId = none) :
    Transs cfg mode s (claimFresh cfg now utc token r s).1 := by
  have hrec : Transs cfg mode s (reconcileCancelledQueue cfg now utc s) := reconcile_transs
  unfold claimFresh
  have hidle : (reconcileCancelledQueue cfg now utc s).owner = s.owner :=
    cancels_owner.reconcile s
  revert hrec hidle
  generalize reconcileCancelledQueue cfg now utc s = s₁
  intro hrec hidle
  simp only
  split
  · exact hrec
  · rename_i work attempt hfirst
    split
    · exact hrec
    · obtain ⟨hmem, hwork, hof, helig⟩ := candidates_spec (firstInQueue_mem hfirst)
      obtain ⟨hq, haq⟩ := eligible_queued helig
      exact ReflTransGen.tail hrec (.hand now _ token r.hostLockIdentity (hidle ▸ idle) hmem hwork
        hof hq haq)

theorem claimOwned_transs {now : Instant} {token : Uuid} {r : ClaimRequest} {work : Work}
    {attempt : Attempt} {c : Option Claimed} (held : Held s work attempt)
    (h : claimOwned now token r work attempt s = .ok (t, c)) : Transs cfg mode s t := by
  unfold claimOwned at h
  split at h
  · cases h; exact ReflTransGen.refl
  · split at h
    · cases h
      split
      · exact Trans.single (.block held)
      · exact ReflTransGen.refl
    · obtain ⟨_, _, h⟩ := ok_bind h
      cases ok_pure h
      exact Trans.single (.resume now _ token r.hostLockIdentity held (by simp_all))

theorem claimDb_transs {now : Instant} {token : Uuid} {r : ClaimRequest}
    (h : claimDb cfg now utc token r s = .ok t) : Transs cfg mode s t := by
  unfold claimDb at h
  cases hc : claim cfg now utc token r s with
  | error e => rw [hc] at h; cases h
  | ok x =>
    rw [hc] at h
    cases h
    unfold claim at hc
    obtain ⟨_, _, hc⟩ := ok_bind hc
    obtain ⟨_, _, hc⟩ := ok_bind hc
    obtain ⟨_, _, hc⟩ := ok_bind hc
    cases ho : s.owner.attemptId with
    | none =>
      simp only [ho] at hc
      rw [ok_pure hc]
      exact claimFresh_transs ho
    | some k =>
      simp only [ho] at hc
      obtain ⟨attempt, ha, hc⟩ := ok_bind hc
      obtain ⟨work, hw, hc⟩ := ok_bind hc
      obtain ⟨hmem, hk⟩ := Table.find?_eq_some.mp (need_ok.mp ha)
      obtain ⟨hwmem, hwk⟩ := Table.find?_eq_some.mp (need_ok.mp hw)
      exact claimOwned_transs ⟨by rw [ho, hk], hmem, hwmem, hwk.symm⟩ hc

/-! ## Operator calls -/

theorem addRepair_ok {r : RepairApply} {planId : Uuid} {row : Uuid × RepairChange}
    (h : addRepair r planId s row = .ok t) : ∃ repairs, t = { s with repairs } := by
  unfold addRepair at h
  obtain ⟨repairs, _, h⟩ := ok_bind h
  exact ⟨repairs, ok_pure h⟩

theorem addRepairs_ok {r : RepairApply} {planId : Uuid} {rows : List (Uuid × RepairChange)}
    (h : rows.foldlM (addRepair r planId) s = .ok t) : ∃ repairs, t = { s with repairs } := by
  induction rows generalizing s with
  | nil => cases ok_pure h; exact ⟨_, rfl⟩
  | cons row rows ih =>
    rw [List.foldlM_cons] at h
    obtain ⟨s', hone, h⟩ := ok_bind h
    obtain ⟨repairs, rfl⟩ := addRepair_ok hone
    obtain ⟨repairs', rfl⟩ := ih h
    exact ⟨repairs', rfl⟩

theorem reopen_transs {newId : Uuid} {work : Work} (hm : mode.reopens) (hmem : work ∈ s.works)
    (daily : work.kind = .daily) (ended : work.state = .failed ∨ work.state = .partly)
    (h : reopen cfg utc newId work s = .ok t) : Transs cfg mode s t := by
  unfold reopen at h
  obtain ⟨s', ha, h⟩ := ok_bind h
  cases ok_pure h
  obtain ⟨a, attempts, hfresh, horder, hins, rfl⟩ := addAttempt_ok ha
  exact Trans.single (.reopen horder hmem hm daily ended hfresh hins)

theorem repairScope_ok {workId planId : Uuid} {work : Work} {plan : Plan}
    (h : repairScope cfg workId s = .ok (work, planId, plan)) :
    work ∈ s.works ∧ work.workId = workId ∧ work.kind = .daily := by
  unfold repairScope at h
  obtain ⟨w, hw, h⟩ := ok_bind h
  obtain ⟨_, _, h⟩ := ok_bind h
  obtain ⟨_, _, h⟩ := ok_bind h
  cases ok_pure h
  obtain ⟨hfind, hp⟩ := Option.filter_eq_some_iff.mp (need_ok.mp hw)
  obtain ⟨hmem, hid⟩ := Table.find?_eq_some.mp hfind
  simp only [Bool.and_eq_true, beq_iff_eq] at hp
  exact ⟨hmem, hid, hp.1.2⟩

theorem repairApply_transs {newId : Uuid} {repairIds : Nat → Uuid} {r : RepairApply}
    (hm : mode.reopens) (h : repairApply cfg utc newId repairIds r s = .ok t) : Transs cfg mode s t := by
  unfold repairApply at h
  obtain ⟨⟨work, planId, plan⟩, hscope, h⟩ := ok_bind h
  obtain ⟨hmem, _, daily⟩ := repairScope_ok hscope
  simp only at h
  split at h
  · unfold repairNew at h
    obtain ⟨_, _, h⟩ := ok_bind h
    obtain ⟨_, _, h⟩ := ok_bind h
    obtain ⟨_, _, h⟩ := ok_bind h
    obtain ⟨_, _, h⟩ := ok_bind h
    obtain ⟨s', hrows, h⟩ := ok_bind h
    obtain ⟨repairs, rfl⟩ := addRepairs_ok hrows
    refine ReflTransGen.head (.audit repairs s.closures) ?_
    unfold reopenEnded at h
    split at h
    · rename_i hended
      exact reopen_transs hm hmem daily (by simpa using hended) h
    · cases h; exact ReflTransGen.refl
  · obtain ⟨_, _, h⟩ := ok_bind h
    cases ok_pure h
    exact ReflTransGen.refl

theorem blocker_nil {c : Bool} {reason : String} : blocker c reason = [] ↔ c = true := by
  unfold blocker
  split <;> simp_all

theorem calendarClosureApply_transs {r : ClosureApply}
    (h : calendarClosureApply cfg utc r s = .ok t) : Transs cfg mode s t := by
  unfold calendarClosureApply at h
  split at h
  · obtain ⟨_, _, h⟩ := ok_bind h
    cases ok_pure h
    exact ReflTransGen.refl
  · obtain ⟨work, hw, h⟩ := ok_bind h
    obtain ⟨_, hscope, h⟩ := ok_bind h
    obtain ⟨_, _, h⟩ := ok_bind h
    obtain ⟨_, _, h⟩ := ok_bind h
    obtain ⟨_, hblock, h⟩ := ok_bind h
    obtain ⟨closures, _, h⟩ := ok_bind h
    cases ok_pure h
    obtain ⟨hmem, hid⟩ := Table.find?_eq_some.mp (need_ok.mp hw)
    have hscope := ensure_ok.mp hscope
    have hblock := ensure_ok.mp hblock
    simp only [closureBlockers, List.isEmpty_iff, List.append_eq_nil_iff, blocker_nil,
      Bool.and_eq_true, Bool.or_eq_true, beq_iff_eq] at hscope hblock
    have hstate := hblock.1.1.1.1.1.1.1.2.1
    refine ReflTransGen.head (.audit s.repairs closures) ?_
    rw [← hid]
    exact Trans.single (.calendarClose utc hmem hscope.1.1.2 (by tauto))

theorem attest_transs {host : String} (h : attest host s = .ok t) : Transs cfg mode s t := by
  unfold attest at h
  obtain ⟨_, _, h⟩ := ok_bind h
  cases ok_pure h
  exact Trans.single (.touch _ rfl rfl rfl)

theorem rerunFromRaw_transs {ids : Uuid × Uuid} {r : Rerun}
    (h : rerunFromRaw cfg utc ids r s = .ok t) :
    Transs cfg mode (s.addRun r.newRunId r.run) t := by
  unfold rerunFromRaw at h
  obtain ⟨_, _, h⟩ := ok_bind h
  obtain ⟨_, _, h⟩ := ok_bind h
  obtain ⟨_, _, h⟩ := ok_bind h
  obtain ⟨_, hnone, h⟩ := ok_bind h
  obtain ⟨⟨s', work⟩, henq, h⟩ := ok_bind h
  obtain ⟨receipts, hr, h⟩ := ok_bind h
  cases ok_pure h
  have hnone : (s.addRun r.newRunId r.run).workByKey (.rerun r.newRunId) = none := by
    have hkey : s.workByKey (.rerun r.newRunId) = none := by simpa using ensure_ok.mp hnone
    exact hkey
  obtain ⟨htrans, hnew, _⟩ := @enqueue_transs cfg mode _ _ utc ids _ work
    (fun _ => historicalRow_of_kind (by intro i hi; cases hi) (by intro hk; cases hk)) henq
  obtain ⟨hw, hmem⟩ := hnew hnone
  have hqueued : work.state = .queued := by rw [hw]; rfl
  refine ReflTransGen.tail (ReflTransGen.tail htrans (.receipt ?_ (need_ok.mp hr))) ?_
  · exact Or.inr ⟨work, hmem, rfl, hqueued⟩
  · exact .freeze _ hmem (Or.inr ⟨work, hmem, rfl, hqueued⟩) (by rw [hw]; rfl)

/-! ## Every operation -/

/-- The condition a strict run puts on its operations. -/
def Op.settlesEnded (cfg : Config) (s : Db) : Op → Prop
  | .mutate utc datasets identity action => SettlesEnded cfg utc datasets identity s action
  | _ => True

/-- The operations that may reopen an ended work. -/
def Op.reopens : Op → Prop
  | .repairApply _ _ _ _ => True
  | _ => False

/-- The operations that may bind a new delivery key. -/
def Op.prepares : Op → Prop
  | .mutate _ _ _ action => action.prepares
  | _ => False

theorem env_addRun (runId : Uuid) (run : Run) : Env s (s.addRun runId run) :=
  ⟨rfl, rfl, rfl, rfl, rfl, rfl, rfl, rfl, ⟨[], by simp [Db.addRun]⟩, ⟨[], by simp [Db.addRun]⟩,
    ⟨[], by simp [Db.addRun]⟩⟩

/-- **Refinement.** An operation is a write of the environment followed by a
sequence of transitions. -/
theorem apply_refines (op : Op) (hreq : RequestsEnded s) (hs : mode.strict → op.settlesEnded cfg s)
    (hm : op.reopens → mode.reopens) (hp : op.prepares → mode.prepares) :
    ∃ m, Env s m ∧ Transs cfg mode m (apply cfg op s) := by
  cases op with
  | enqueue utc ids datasets r =>
    exact ⟨s, .refl s, settled_transs fun t h => enqueueEndpoint_transs h⟩
  | claim now utc token r => exact ⟨s, .refl s, settled_transs fun t h => claimDb_transs h⟩
  | mutate utc datasets identity action =>
    exact ⟨s, .refl s, commit_transs fun t h => mutate_transs hs hp h⟩
  | ingest utc d dataset date runId sha members replay =>
    exact ⟨s, .refl s, settled_transs fun t h => ingest_transs h⟩
  | createRequest utc requestId ids r =>
    exact ⟨s, .refl s, settled_transs fun t h => createRequest_transs h⟩
  | cancelRequest utc requestId actor =>
    exact ⟨s, .refl s, settled_transs fun t h => cancelRequest_transs h⟩
  | expireRequests now => exact ⟨s, .refl s, expireRequests_transs⟩
  | reconcileCancelledQueue now utc => exact ⟨s, .refl s, reconcile_transs⟩
  | claimNextItem now utc datasets identity =>
    exact ⟨s, .refl s, settled_transs fun t h => claimNextItem_transs h⟩
  | completeItem utc r =>
    exact ⟨s, .refl s, commit_transs fun t h => completeEndpoint_transs hreq h⟩
  | repairApply utc newId repairIds r =>
    exact ⟨s, .refl s, settled_transs fun t h => repairApply_transs (hm trivial) h⟩
  | calendarClosureApply utc r =>
    exact ⟨s, .refl s, settled_transs fun t h => calendarClosureApply_transs h⟩
  | rerunFromRaw utc ids r =>
    simp only [apply]
    cases h : rerunFromRaw cfg utc ids r s with
    | error e => exact ⟨s, .refl s, ReflTransGen.refl⟩
    | ok t => exact ⟨_, env_addRun r.newRunId r.run, rerunFromRaw_transs h⟩
  | attest host => exact ⟨s, .refl s, settled_transs fun t h => attest_transs h⟩
  | setRegistry registry =>
    exact ⟨apply cfg (.setRegistry registry) s, ⟨rfl, rfl, rfl, rfl, rfl, rfl, rfl, rfl,
      ⟨[], by simp [apply]⟩, ⟨[], by simp [apply]⟩, ⟨[], by simp [apply]⟩⟩, ReflTransGen.refl⟩
  | addEvidence runId key =>
    exact ⟨apply cfg (.addEvidence runId key) s, ⟨rfl, rfl, rfl, rfl, rfl, rfl, rfl, rfl,
      ⟨_, rfl⟩, ⟨[], by simp [apply]⟩, ⟨[], by simp [apply]⟩⟩, ReflTransGen.refl⟩
  | addIssue issue =>
    exact ⟨apply cfg (.addIssue issue) s, ⟨rfl, rfl, rfl, rfl, rfl, rfl, rfl, rfl,
      ⟨[], by simp [apply]⟩, ⟨_, rfl⟩, ⟨[], by simp [apply]⟩⟩, ReflTransGen.refl⟩
  | addNoData planId key =>
    exact ⟨apply cfg (.addNoData planId key) s, ⟨rfl, rfl, rfl, rfl, rfl, rfl, rfl, rfl,
      ⟨[], by simp [apply]⟩, ⟨[], by simp [apply]⟩, ⟨_, rfl⟩⟩, ReflTransGen.refl⟩

end FinDB.ProviderWork
