import FinDB.ProviderWork.Beside

/-! # How requests end and items start

Cancellation, expiry, claims and completions as changes of one request and its
items. The loops over the siblings look at rows read before them; what they end
is exactly what was still live. -/
namespace FinDB.ProviderWork
open FinDB.Lib Relation

variable {cfg : Config} {s t u : Db} {may : Uuid → Prop} {now : Instant}

/-! ## The loops over the siblings -/

theorem cancelQueuedItemWork_same (itemId : Uuid) :
    SameRequests s (cancelQueuedItemWork now itemId s) :=
  ⟨cancelQueuedItemWork_requests itemId, cancelQueuedItemWork_items itemId⟩

/-- The item ends when the loop meets it with the condition. -/
def endedBy (now : Instant) (xs : List Item) (c : Item → Bool) (i : Item) : Item :=
  if xs.any fun x => x.itemId == i.itemId && c x then i.cancelled now else i

/-- A loop that cancels the rows it meets under a condition. -/
theorem loop_maps {step : Db → Item → Db} {c : Item → Bool}
    (hstep : ∀ s x, SameRequests
      (if c x then s.setItem x.itemId (Item.cancelled now) else s) (step s x))
    (xs : List Item) (s : Db) : Maps id (endedBy now xs c) s (xs.foldl step s) := by
  induction xs generalizing s with
  | nil => exact (SameRequests.refl s).maps.congr (fun _ => rfl) fun _ => rfl
  | cons x xs ih =>
    rw [List.foldl_cons]
    have hfirst : Maps id (fun i => if i.itemId = x.itemId ∧ c x = true then i.cancelled now else i)
        s (step s x) := by
      have hsame := hstep s x
      cases hc : c x with
      | true =>
        rw [hc, if_pos rfl] at hsame
        exact ((maps_setItem _ (by intro _; rfl) (by intro _; rfl)).trans hsame.maps).congr
          (fun _ => rfl) fun i => by simp
      | false =>
        rw [hc, if_neg (by simp)] at hsame
        exact hsame.maps.congr (fun _ => rfl) fun i => by simp
    refine (hfirst.trans (ih (step s x))).congr (fun _ => rfl) fun i => ?_
    simp only [Function.comp, endedBy, List.any_cons]
    by_cases hx : i.itemId = x.itemId ∧ c x = true
    · obtain ⟨hid, hc⟩ := hx
      simp only [hid, hc, and_self, if_true, beq_self_eq_true, Bool.and_self, Bool.true_or]
      split <;> rfl
    · have hfalse : (x.itemId == i.itemId && c x) = false := by
        rw [Bool.and_eq_false_iff]
        by_cases hid : i.itemId = x.itemId
        · exact Or.inr (by simpa using fun hc => hx ⟨hid, hc⟩)
        · exact Or.inl (by simpa using fun h => hid h.symm)
      simp only [if_neg hx, hfalse, Bool.false_or]

/-- A row read from the table is met by its own. -/
theorem any_itemsOf (requestId : Uuid) {i : Item} (hi : i ∈ s.items) (c : Item → Bool) :
    ((s.itemsOf requestId).any fun x => x.itemId == i.itemId && c x) =
      (i.requestId == requestId && c i) := by
  rw [Bool.eq_iff_iff, List.any_eq_true]
  simp only [Bool.and_eq_true, beq_iff_eq]
  constructor
  · rintro ⟨x, hx, hid, hc⟩
    obtain ⟨hmem, hof⟩ := List.mem_filter.mp hx
    rw [Table.eq_of_key hmem hi hid] at hc hof
    exact ⟨by simpa using hof, hc⟩
  · rintro ⟨hof, hc⟩
    exact ⟨i, mem_itemsOf hi hof, rfl, hc⟩

theorem expireSibling_same (s : Db) (x : Item) :
    SameRequests (if x.status.live then s.setItem x.itemId (Item.cancelled now) else s)
      (expireSibling now s x) := by
  unfold expireSibling cancelLive
  exact cancelQueuedItemWork_same x.itemId

theorem failSibling_same (itemId : Uuid) (s : Db) (x : Item) :
    SameRequests (if x.status.live && x.itemId != itemId then
      s.setItem x.itemId (Item.cancelled now) else s) (failSibling now itemId s x) := by
  unfold failSibling
  split
  · rename_i h
    have hlive : x.status.live = true := (Bool.and_eq_true _ _ ▸ h).1
    have hsame := @expireSibling_same now s x
    rwa [if_pos hlive] at hsame
  · exact .refl s

/-! ## Cancellation -/

theorem cancelRequest_move {requestId : Uuid} {actor : String}
    (h : cancelRequest now requestId actor s = .ok t) : Move may s t := by
  unfold cancelRequest at h
  obtain ⟨row, hrow, h⟩ := ok_bind h
  obtain ⟨_, hlive, h⟩ := ok_bind h
  cases ok_pure h
  obtain ⟨hmem, hid⟩ := Table.find?_eq_some.mp (need_ok.mp hrow)
  have hlive := ensure_ok.mp hlive
  have hmaps := (@maps_setRequest s requestId (fun q => { q with
      status := .cancelled, cancelledBy := some actor, cancelledAt := some now })
      (by intro _; rfl)).trans (@loop_maps now (cancelItem now) (·.status.live)
      (fun s x => by rw [cancelItem_eq]; exact expireSibling_same s x) (s.itemsOf requestId) _)
  refine ⟨_, _, hmaps, fun p hp => ?_⟩
  by_cases hpid : p.requestId = requestId
  · have hp : p = row := Table.eq_of_key hp hmem (hpid.trans hid.symm)
    refine .cancel (hp ▸ hlive) ?_ fun i hi => ?_
    · simp only [Function.comp, id, if_pos hpid]
    · simp only [Function.comp, id, endedBy]
      rw [any_itemsOf _ hi.1, hi.2, hpid, beq_self_eq_true, Bool.true_and]
      cases i.status.live <;> rfl
  · refine .same ?_ fun i hi => ?_
    · simp only [Function.comp, id, if_neg hpid]
    · simp only [Function.comp, id, endedBy]
      rw [any_itemsOf _ hi.1, hi.2, beq_eq_false_iff_ne.mpr hpid, Bool.false_and]
      rfl

/-! ## A failed item -/

/-- The item fails with its request, and the live siblings are cancelled. -/
theorem fail_move {item : Item} {e : Item → Item} {g : Request → Request} {step : Db → Item → Db}
    {c : Item → Bool} (he : ∀ i, (e i).itemId = i.itemId) (hof : ∀ i, (e i).requestId = i.requestId)
    (hg : ∀ q, (g q).requestId = q.requestId) (hmem : item ∈ s.items)
    (hlive : item.status.live = true)
    (hparent : ∀ p ∈ s.requests, p.requestId = item.requestId → p.status.live = true)
    (hitem : ∀ i, (e i).status = .failed) (hrequest : ∀ q, (g q).status = .failed)
    (hstep : ∀ s x, SameRequests
      (if c x then s.setItem x.itemId (Item.cancelled now) else s) (step s x))
    (hc : ∀ x, x.itemId ≠ item.itemId → c x = x.status.live)
    (hself : c (e item) = false) :
    Move may s (((s.setItem item.itemId e he).setRequest item.requestId g hg |>.itemsOf
      item.requestId).foldl step ((s.setItem item.itemId e he).setRequest item.requestId g hg)) := by
  have hmaps := ((maps_setItem (s := s) item.itemId he hof).trans
    (maps_setRequest item.requestId hg)).trans
      (loop_maps hstep (((s.setItem item.itemId e he).setRequest item.requestId g hg).itemsOf
        item.requestId) _)
  -- the row the loop meets
  have hrow : ∀ i ∈ s.items, (if i.itemId = item.itemId then e i else i) ∈
      ((s.setItem item.itemId e he).setRequest item.requestId g hg).items := fun i hi =>
    ((maps_setItem item.itemId he hof).items _).mpr ⟨i, hi, rfl⟩
  refine ⟨_, _, hmaps, fun p hp => ?_⟩
  by_cases hpid : p.requestId = item.requestId
  · refine .fail (hparent p hp hpid) ⟨hmem, hpid.symm, hlive⟩ ?_ ?_ fun j hj hne => ?_
    · simp only [Function.comp, id, if_pos hpid]
      exact hrequest p
    · have hmeet := any_itemsOf item.requestId (hrow item hmem) c
      rw [if_pos rfl] at hmeet
      simp only [Function.comp, id, if_true, endedBy]
      rw [hmeet, hself, Bool.and_false]
      exact hitem item
    · have hid : j.itemId ≠ item.itemId := fun h => hne (Table.eq_of_key hj.1 hmem h)
      have hmeet := any_itemsOf item.requestId (hrow j hj.1) c
      rw [if_neg hid] at hmeet
      simp only [Function.comp, id, if_neg hid, endedBy]
      rw [hmeet, hj.2, hpid, beq_self_eq_true, Bool.true_and, hc j hid]
      cases j.status.live <;> rfl
  · refine .same ?_ fun j hj => ?_
    · simp only [Function.comp, id, if_neg hpid]
    · have hid : j.itemId ≠ item.itemId := fun h =>
        hpid (hj.2.symm.trans (congrArg Item.requestId (Table.eq_of_key hj.1 hmem h)))
      have hmeet := any_itemsOf item.requestId (hrow j hj.1) c
      rw [if_neg hid] at hmeet
      simp only [Function.comp, id, if_neg hid, endedBy]
      rw [hmeet, hj.2, beq_eq_false_iff_ne.mpr hpid, Bool.false_and]
      rfl

/-! ## Expiry -/

/-- The selected row still names its item's request. -/
def Selected (s : Db) (x : Item) : Prop :=
  ∀ i ∈ s.items, i.itemId = x.itemId → i.requestId = x.requestId

theorem expireItem_move {x : Item} (h : Selected s x) : Move may s (expireItem now s x) := by
  unfold expireItem
  split
  · rename_i item request hitem hrequest
    split
    · rename_i hlive
      obtain ⟨hmem, hid⟩ := Table.find?_eq_some.mp hitem
      obtain ⟨hreq, hrid⟩ := Table.find?_eq_some.mp hrequest
      have hof : item.requestId = request.requestId := (h item hmem hid).trans hrid.symm
      simp only [Bool.and_eq_true] at hlive
      simp only
      rw [← hof]
      exact fail_move (by intro _; rfl) (by intro _; rfl) (by intro _; rfl) hmem hlive.1
        (fun p hp hpid => by rw [Table.eq_of_key hp hreq (hpid.trans hof)]; exact hlive.2)
        (fun _ => rfl) (fun _ => rfl) expireSibling_same (fun _ _ => rfl) rfl
    · exact (SameRequests.refl s).move
  · exact (SameRequests.refl s).move

theorem Move.selected (h : Move may s t) {x : Item} (hx : Selected s x) : Selected t x := by
  obtain ⟨g, f, hm, _⟩ := h
  intro i hi hid
  obtain ⟨j, hj, rfl⟩ := (hm.items i).mp hi
  rw [hm.ofRequest]
  exact hx j hj ((hm.itemId j).symm.trans hid)

theorem expireRequests_moves : Moves may s (expireRequests cfg now s) := by
  have hrun : ∀ (xs : List Item) (s : Db), (∀ x ∈ xs, Selected s x) →
      Moves may s (xs.foldl (expireItem now) s) := by
    intro xs
    induction xs with
    | nil => exact fun _ _ => ReflTransGen.refl
    | cons x xs ih =>
      intro s hsel
      have hone : Move may s (expireItem now s x) := expireItem_move (hsel x List.mem_cons_self)
      exact ReflTransGen.head hone
        (ih _ fun y hy => hone.selected (hsel y (List.mem_cons_of_mem _ hy)))
  refine hrun _ s fun x hx i hi hid => ?_
  obtain ⟨⟨request, item⟩, hmem, rfl⟩ := List.mem_map.mp hx
  rw [List.mem_insertionSort] at hmem
  obtain ⟨j, hj, hsel⟩ := List.mem_filterMap.mp hmem
  obtain ⟨q, _, hsel⟩ := Option.bind_eq_some_iff.mp hsel
  split at hsel
  · cases hsel
    rw [Table.eq_of_key hi hj hid]
  · cases hsel

theorem reconcile_moves {utc : Instant} : Moves may s (reconcileCancelledQueue cfg now utc s) := by
  have hexpire : Moves may s (expireRequests cfg now s) := expireRequests_moves
  refine ReflTransGen.trans hexpire (SameRequests.move ?_).single
  unfold reconcileCancelledQueue
  generalize expireRequests cfg now s = s'
  simp only
  generalize cancelledItems s' = xs
  induction xs generalizing s' with
  | nil => exact .refl s'
  | cons x xs ih => exact (cancelQueuedItemWork_same x.itemId).trans (ih _)

end FinDB.ProviderWork
