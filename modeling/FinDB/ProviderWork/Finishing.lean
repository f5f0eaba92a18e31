import FinDB.ProviderWork.Agreement
import FinDB.ProviderWork.Endings

/-! # How items start and finish

A claim starts an item and `complete_item` ends one. Both read the item and its
request themselves, but a claim only reads the request: that the item was still
to be acquired follows from the work it is claimed for. -/
namespace FinDB.ProviderWork
open FinDB.Lib Relation

variable {cfg : Config} {s t u : Db} {may : Uuid → Prop} {now utc : Instant}

/-- Every work of `t` was there before. -/
def SameWorks (s t : Db) : Prop := ∀ w' ∈ t.works, ∃ w ∈ s.works, w.workId = w'.workId

theorem SameWorks.of_eq (h : t.works = s.works) : SameWorks s t := fun w hw => ⟨w, h ▸ hw, rfl⟩

theorem SameWorks.trans (h : SameWorks s t) (h' : SameWorks t u) : SameWorks s u := by
  intro w'' hw''
  obtain ⟨w', hw', hid'⟩ := h' w'' hw''
  obtain ⟨w, hw, hid⟩ := h w' hw'
  exact ⟨w, hw, hid.trans hid'⟩

theorem SameWorks.modify {workId : Uuid} {f : Work → Work} (hf : ∀ w, (f w).workId = w.workId)
    (hworks : t.works = s.works.modify workId f hf) : SameWorks s t := by
  intro w' hw'
  rw [hworks] at hw'
  rcases Table.mem_modify.mp hw' with ⟨hw, _⟩ | ⟨w, hw, _, rfl⟩
  · exact ⟨w', hw, rfl⟩
  · exact ⟨w, hw, (hf w).symm⟩

/-- A cancellation only rewrites works. -/
theorem cancels_works : Cancels SameWorks where
  refl _ := .of_eq rfl
  trans _ _ _ h h' := h.trans h'
  work now itemId s := by
    unfold cancelQueuedItemWork
    split
    · exact .of_eq rfl
    · split
      · exact .of_eq rfl
      · split
        · exact .of_eq rfl
        · exact .modify (by intro _; rfl) rfl
  item _ _ _ _ := .of_eq rfl
  request _ _ _ _ := .of_eq rfl

theorem cancelRequest_works {requestId : Uuid} {actor : String}
    (h : cancelRequest now requestId actor s = .ok t) : SameWorks s t := by
  unfold cancelRequest at h
  obtain ⟨_, _, h⟩ := ok_bind h
  obtain ⟨_, _, h⟩ := ok_bind h
  cases ok_pure h
  exact (cancels_works.request s _ _ _).trans
    (cancels_works.foldl (fun s x => cancels_works.cancelItem s x) _ _)

/-! ## Starting -/

theorem setItem_move {itemId : Uuid} {f : Item → Item} (hf : ∀ i, (f i).itemId = i.itemId)
    (hr : ∀ i, (f i).requestId = i.requestId) (hs : ∀ i, (f i).status = i.status) :
    Move may s (s.setItem itemId f hf) := by
  refine (maps_setItem _ hf hr).move (fun _ => rfl) fun i => ?_
  split
  · exact hs i
  · rfl

theorem startItem_move {item : Item} (hmem : item ∈ s.items) (hlive : item.status.live = true)
    (hparent : ∀ p ∈ s.requests, p.requestId = item.requestId → p.status.live = true) :
    Move may s (s.startItem item now) := by
  refine ⟨_, _, (maps_setItem _ (by intro _; rfl) (by intro _; rfl)).trans
    (maps_setRequest _ (by intro _; rfl)), fun p hp => ?_⟩
  by_cases hpid : p.requestId = item.requestId
  · refine .start (hparent p hp hpid) ⟨hmem, hpid.symm, hlive⟩ ?_ ?_ fun j hj hne => ?_
    · simp only [Function.comp, id, if_pos hpid]
    · simp only [Function.comp, id, if_true]
    · have hid : j.itemId ≠ item.itemId := fun h => hne (Table.eq_of_key hj.1 hmem h)
      simp only [Function.comp, id, if_neg hid]
  · refine .same ?_ fun j hj => ?_
    · simp only [Function.comp, id, if_neg hpid]
    · have hid : j.itemId ≠ item.itemId := fun h =>
        hpid (hj.2.symm.trans (congrArg Item.requestId (Table.eq_of_key hj.1 hmem h)))
      simp only [Function.comp, id, if_neg hid]

/-! ## Finishing -/

theorem ended_not_failed {r : CompleteItem} (h : r.outcome ≠ .failed) (i : Item) :
    (r.ended utc i).status = .completed ∨ (r.ended utc i).status = .partly := by
  unfold CompleteItem.ended ItemOutcome.status
  cases ho : r.outcome with
  | completed => exact Or.inl rfl
  | partly => exact Or.inr rfl
  | failed => exact absurd ho h

/-- The item ends, and its request when it was the last one. -/
theorem endItem_move {r : CompleteItem} {item i : Item} (hid : i.itemId = item.itemId)
    (hof : i.requestId = item.requestId) (hmem : i ∈ s.items) (hlive : i.status.live = true)
    (hparent : ∀ p ∈ s.requests, p.requestId = item.requestId → p.status.live = true)
    (hmay : r.outcome ≠ .failed → may item.itemId) :
    Move may s (r.endRequest utc item (s.setItem item.itemId (r.ended utc))) := by
  unfold CompleteItem.endRequest
  split
  · rename_i hfailed
    have hfailed : r.outcome = .failed := by simpa using hfailed
    have hstatus : ∀ j, (r.ended utc j).status = .failed := fun j => by
      unfold CompleteItem.ended ItemOutcome.status
      rw [hfailed]
    simp only
    rw [← hid, ← hof]
    exact @fail_move _ _ _ i _ _ _ _ (by intro _; rfl) (by intro _; rfl) (by intro _; rfl) hmem hlive
      (hof ▸ hparent) hstatus (fun _ => rfl) (failSibling_same i.itemId)
      (fun x hx => by simp [hx]) (by simp [CompleteItem.ended])
  · rename_i hnot
    have hnot : r.outcome ≠ .failed := by simpa using hnot
    have hmaps : Maps id (fun j => if j.itemId = item.itemId then r.ended utc j else j) s
        (s.setItem item.itemId (r.ended utc)) := maps_setItem _ (by intro _; rfl) (by intro _; rfl)
    -- the rows of the request after the item ended
    have hrows : ∀ j, j ∈ (s.setItem item.itemId (r.ended utc)).itemsOf item.requestId ↔
        ∃ k ∈ s.items, k.requestId = item.requestId ∧
          j = if k.itemId = item.itemId then r.ended utc k else k := by
      intro j
      have hfilter : j ∈ (s.setItem item.itemId (r.ended utc)).itemsOf item.requestId ↔
          j ∈ (s.setItem item.itemId (r.ended utc)).items ∧ j.requestId = item.requestId := by
        unfold Db.itemsOf
        rw [List.mem_filter, beq_iff_eq]
        exact Iff.rfl
      rw [hfilter, hmaps.items]
      constructor
      · rintro ⟨⟨k, hk, rfl⟩, hkr⟩
        exact ⟨k, hk, (hmaps.ofRequest k).symm.trans hkr, rfl⟩
      · rintro ⟨k, hk, hkr, rfl⟩
        exact ⟨⟨k, hk, rfl⟩, (hmaps.ofRequest k).trans hkr⟩
    have hother : ∀ p : Request, p.requestId ≠ item.requestId → ∀ j, Of s p j →
        (if j.itemId = item.itemId then r.ended utc j else j).status = j.status := by
      intro p hp j hj
      have hne : j.itemId ≠ item.itemId := fun h =>
        hp (hj.2.symm.trans ((congrArg Item.requestId
          (Table.eq_of_key hj.1 hmem (h.trans hid.symm))).trans hof))
      rw [if_neg hne]
    have hself : (if i.itemId = item.itemId then r.ended utc i else i).status = .completed ∨
        (if i.itemId = item.itemId then r.ended utc i else i).status = .partly := by
      rw [if_pos hid]
      exact ended_not_failed hnot i
    have hsiblings : ∀ p : Request, ∀ j, Of s p j → j ≠ i →
        (if j.itemId = item.itemId then r.ended utc j else j).status = j.status := by
      intro p j hj hne
      rw [if_neg fun h => hne (Table.eq_of_key hj.1 hmem (h.trans hid.symm))]
    have hitem : ∀ p : Request, p.requestId = item.requestId → LiveItem s p i := fun p hp =>
      ⟨hmem, hof.trans hp.symm, hlive⟩
    split
    · rename_i hall
      refine ⟨_, _, hmaps.trans (maps_setRequest _ (by intro _; rfl)), fun p hp => ?_⟩
      by_cases hpid : p.requestId = item.requestId
      · refine .finish (hparent p hp hpid) (hitem p hpid) (hid ▸ hmay hnot) hself (hsiblings p)
          (Or.inr ⟨fun j hj => ?_, ?_⟩)
        · exact List.all_eq_true.mp hall _ ((hrows _).mpr ⟨j, hj.1, hj.2.trans hpid, rfl⟩)
        · simp only [Function.comp, id, if_pos hpid]
          cases hany : ((s.setItem item.itemId (r.ended utc)).itemsOf item.requestId).any
              (·.status == .partly) with
          | true =>
            obtain ⟨j, hj, hpartly⟩ := List.any_eq_true.mp hany
            obtain ⟨k, hk, hkr, rfl⟩ := (hrows j).mp hj
            exact Or.inl ⟨rfl, k, ⟨hk, hkr.trans hpid.symm⟩, by simpa using hpartly⟩
          | false =>
            refine Or.inr ⟨rfl, fun j hj => ?_⟩
            have hnone := List.any_eq_false.mp hany _
              ((hrows _).mpr ⟨j, hj.1, hj.2.trans hpid, rfl⟩)
            simpa using hnone
      · exact .same (by simp only [Function.comp, id, if_neg hpid]) (hother p hpid)
    · rename_i hall
      refine ⟨_, _, hmaps, fun p hp => ?_⟩
      by_cases hpid : p.requestId = item.requestId
      · refine .finish (hparent p hp hpid) (hitem p hpid) (hid ▸ hmay hnot) hself (hsiblings p)
          (Or.inl ⟨rfl, ?_⟩)
        obtain ⟨j, hj, hopen⟩ := List.all_eq_false.mp (by simpa using hall)
        obtain ⟨k, hk, hkr, rfl⟩ := (hrows j).mp hj
        exact ⟨k, ⟨hk, hkr.trans hpid.symm⟩, by simpa using hopen⟩
      · exact .same rfl (hother p hpid)

/-! ## complete_item -/

/-- The request of a live item is live. -/
theorem RequestsEnded.live (h : RequestsEnded s) {i : Item} (hi : i ∈ s.items)
    (hlive : i.status.live = true) :
    ∀ p ∈ s.requests, p.requestId = i.requestId → p.status.live = true := by
  intro p hp hid
  by_contra hended
  have hoff := h.ended p hp (by simpa using hended) i hi hid.symm
  rw [hlive] at hoff
  cases hoff

theorem endRequest_works {r : CompleteItem} {item : Item} :
    SameWorks s (r.endRequest utc item s) := by
  unfold CompleteItem.endRequest
  split
  · refine (cancels_works.request s _ _ _).trans (cancels_works.foldl (fun s x => ?_) _ _)
    unfold failSibling
    split
    · exact cancels_works.expireSibling s x
    · exact .of_eq rfl
  · simp only
    split <;> exact .of_eq rfl

theorem endRequest_sameWorks {r : CompleteItem} {item : Item} (h : r.outcome ≠ .failed) :
    (r.endRequest utc item s).works = s.works := by
  unfold CompleteItem.endRequest
  split
  · rename_i hfailed
    exact absurd (by simpa using hfailed) h
  · simp only
    split <;> rfl

/-- The items a call may finish have a work that is over. -/
def Finishes (may : Uuid → Prop) (t : Db) : Prop :=
  ∀ itemId, may itemId → ∃ w ∈ t.works, w.stableKey = .historical itemId ∧ w.state.terminal = true

/-- What a completion leaves of requests, items and works. -/
structure Completes (s t : Db) : Prop where
  moves : ∃ may, Moves may s t ∧ Finishes may t
  works : WorksFrom s t

theorem WorksFrom.after (h : SameWorks s t) (h' : WorksFrom t u) : WorksFrom s u := by
  intro w'' hw''
  rcases h' w'' hw'' with ⟨w', hw', hid'⟩ | hne
  · obtain ⟨w, hw, hid⟩ := h w' hw'
    exact Or.inl ⟨w, hw, hid.trans hid'⟩
  · exact Or.inr hne

theorem SameWorks.worksFrom (h : SameWorks s t) : WorksFrom s t := fun w hw => Or.inl (h w hw)

/-- Moves and rewrites before a completion. -/
theorem Completes.after (hm : ∀ may, Moves may s t) (hw : SameWorks s t) (h : Completes t u) :
    Completes s u := by
  obtain ⟨may, hmoves, hfin⟩ := h.moves
  exact ⟨⟨may, ReflTransGen.trans (hm may) hmoves, hfin⟩, h.works.after hw⟩

/-- Calls that finish no item. -/
theorem Completes.of_beside (h : Beside s t) : Completes s t :=
  ⟨⟨fun _ => False, h.same.move.single, fun _ hm => hm.elim⟩, h.works⟩

theorem close_beside {identity : FenceIdentity} (h : close cfg utc identity s = .ok t) :
    Beside s t := by
  obtain ⟨hworks, hitems, hrequests⟩ := close_frame h
  exact .of_works hrequests hitems hworks

theorem drainItem_completes {identity : FenceIdentity} {work : Work} {item : Item}
    {r : CompleteItem} (h : Leaves (drainItem cfg utc identity work item r s) t) :
    Completes s t := by
  unfold drainItem at h
  obtain ⟨s', hclose, h⟩ := leaves_plain_bind h
  have hc := close_beside hclose
  refine .after (fun _ => hc.same.move.single) (.of_eq (close_frame hclose).1)
    (.of_beside (settle_beside h))

theorem finishItem_completes {identity : FenceIdentity} {work : Work} {item : Item}
    {request : Request} {r : CompleteItem} (hreq : RequestsEnded s)
    (row : ∀ w ∈ s.works, w.workId = identity.workId → w.stableKey = .historical item.itemId)
    (hmem : item ∈ s.items)
    (h : Leaves (finishItem cfg utc identity work item request r s) t) : Completes s t := by
  unfold finishItem at h
  obtain ⟨_, hleased, h⟩ := leaves_plain_bind h
  obtain ⟨eod, _, h⟩ := leaves_plain_bind h
  obtain ⟨s₃, hclose, h⟩ := leaves_plain_bind h
  have hleased := ensure_ok.mp hleased
  simp only [Item.leased, Bool.and_eq_true, beq_iff_eq] at hleased
  have hlive : item.status.live = true := by rw [hleased.1.1.2]; rfl
  obtain ⟨hworks, hitems, hrequests⟩ := close_frame hclose
  have hfirst : ∀ may, Moves may s s₃ := fun may =>
    ReflTransGen.tail (setItem_move (by intro _; rfl) (by intro _; rfl) (by intro _; rfl)).single
      (close_beside hclose).same.move
  refine .after hfirst (.of_eq hworks) ?_
  -- the row after the evidence was stored
  obtain ⟨i, hi, hid, hof, hilive⟩ : ∃ i ∈ s₃.items, i.itemId = item.itemId ∧
      i.requestId = item.requestId ∧ i.status.live = true := by
    rw [hitems]
    exact ⟨_, (Table.mem_modify_row (by intro _; rfl) hmem).mpr (Or.inr rfl), rfl, rfl, hlive⟩
  rcases leaves_bind h with ⟨e, hkept⟩ | ⟨s₄, hsettle, h⟩
  · obtain ⟨_, _, _, _, rfl⟩ := settle_kept hkept
    exact .of_beside (.of_works rfl rfl rfl)
  obtain ⟨owned, attempt, hset, ⟨hretry, _⟩ | ⟨hfinal, hs₄⟩⟩ := settle_ok hsettle
  · exact absurd hretry (settlement_final r)
  rw [leaves_ok h]
  have hf := hset.fenced
  have hbeside : Beside s₃ s₄ := by
    rw [hs₄]
    exact .modify (by intro _; rfl) rfl rfl rfl
  have hwork : owned.stableKey = .historical item.itemId :=
    row owned (by have hmem₃ := hf.workMem; rwa [hworks] at hmem₃) hf.workId
  have hsame : SameWorks s₃ s₄ := by
    rw [hs₄]
    exact .modify (by intro _; rfl) rfl
  refine .after (fun _ => hbeside.same.move.single) hsame ⟨⟨fun id => r.outcome ≠ .failed ∧ id = item.itemId,
    (endItem_move hid hof (hbeside.same.items ▸ hi) hilive ?_ fun hne => ⟨hne, rfl⟩).single, ?_⟩, ?_⟩
  · rw [hbeside.same.requests, hrequests]
    exact hreq.live hmem hlive
  · rintro _ ⟨hne, rfl⟩
    rw [endRequest_sameWorks hne, hs₄]
    exact ⟨_, hf.held.finish_mem utc _, hwork, Outcome.workState_terminal hfinal⟩
  · exact SameWorks.worksFrom ((cancels_works.item s₄ _ _ _).trans endRequest_works)

theorem completeItem_completes {r : CompleteItem} (hreq : RequestsEnded s)
    (h : Leaves (completeItem cfg utc r s) t) : Completes s t := by
  unfold completeItem at h
  obtain ⟨item, hitem, h⟩ := leaves_plain_bind h
  split at h
  · obtain ⟨_, _, h⟩ := leaves_plain_bind h
    rw [leaves_ok h]
    exact .of_beside (.refl s)
  · obtain ⟨_, _, h⟩ := leaves_plain_bind h
    obtain ⟨id, _, h⟩ := leaves_plain_bind h
    obtain ⟨⟨work, attempt⟩, hf, h⟩ := leaves_plain_bind h
    obtain ⟨_, hscope, h⟩ := leaves_plain_bind h
    obtain ⟨item', hitem', h⟩ := leaves_plain_bind h
    obtain ⟨request, hrequest, h⟩ := leaves_plain_bind h
    have hf := fence_fenced hf
    have hscope := ensure_ok.mp hscope
    simp only [Bool.and_eq_true, beq_iff_eq] at hscope
    have hfirst : Transs cfg .free s ((expireRequests cfg utc s).setItem item.itemId
        ({ · with leaseExpiresAt := s.owner.expiresAt })) :=
      ReflTransGen.tail expireRequests_transs (.endItem item.itemId _ (by intro _; rfl)
        (by intro i; exact ⟨rfl, Or.inl rfl⟩))
    have hmoves : ∀ may, Moves may s ((expireRequests cfg utc s).setItem item.itemId
        ({ · with leaseExpiresAt := s.owner.expiresAt })) := fun may =>
      ReflTransGen.tail expireRequests_moves
        (setItem_move (by intro _; rfl) (by intro _; rfl) (by intro _; rfl))
    have hworks : SameWorks s ((expireRequests cfg utc s).setItem item.itemId
        ({ · with leaseExpiresAt := s.owner.expiresAt })) :=
      (cancels_works.expireRequests s).trans (cancels_works.item _ _ _ _)
    revert h hrequest hitem' hfirst hmoves hworks
    generalize (expireRequests cfg utc s).setItem item.itemId
      ({ · with leaseExpiresAt := s.owner.expiresAt }) = s₁
    intro hitem' hrequest h hfirst hmoves hworks
    refine .after hmoves hworks ?_
    split at h
    · exact drainItem_completes h
    · obtain ⟨hmem, hid⟩ := Table.find?_eq_some.mp (need_ok.mp hitem')
      refine finishItem_completes (transs_requestsEnded hfirst hreq) (fun w hw hwid => ?_) hmem h
      have hsame := (transs_keepsWorks hfirst).row hf.workMem hw (hwid.trans hf.workId.symm)
      rw [hsame.stableKey, hscope.2, hid]

theorem completeEndpoint_completes {r : CompleteItem} (hreq : RequestsEnded s)
    (h : Leaves (completeEndpoint cfg utc r s) t) : Completes s t := by
  unfold completeEndpoint at h
  obtain ⟨_, _, h⟩ := leaves_plain_bind h
  exact completeItem_completes hreq h

end FinDB.ProviderWork
