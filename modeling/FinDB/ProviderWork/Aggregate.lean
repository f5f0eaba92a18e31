import FinDB.ProviderWork.Created

/-! # Requests and the statuses of their items

What the status of a request says of its items, and the changes the historical
calls make to a request and its items together. Every change is a map of the two
tables, so the order of the loops that write them does not matter. -/
namespace FinDB.ProviderWork
open FinDB.Lib Relation

variable {cfg : Config} {s t u : Db}

/-! ## The aggregate -/

/-- What a request status says of the items `on` it, whose statuses are `st`. -/
def Aggregates {ι : Type} (on : ι → Prop) (st : ι → ItemStatus) : RequestStatus → Prop
  | .queued | .running =>
    (∃ i, on i ∧ (st i).live = true) ∧ ∀ i, on i → st i ≠ .failed ∧ st i ≠ .cancelled
  | .completed => ∀ i, on i → st i = .completed ∨ st i = .skippedCalendar
  | .partly =>
    (∃ i, on i ∧ st i = .partly) ∧
      ∀ i, on i → st i = .completed ∨ st i = .partly ∨ st i = .skippedCalendar
  | .failed =>
    (∃ i, on i ∧ st i = .failed ∧ ∀ j, on j → st j = .failed → j = i) ∧
      ∀ i, on i → (st i).live = false
  | .cancelled => ∀ i, on i → (st i).live = false ∧ st i ≠ .failed

/-- The item belongs to the request. -/
def Of (s : Db) (q : Request) (i : Item) : Prop := i ∈ s.items ∧ i.requestId = q.requestId

/-- The status of the request, read off its items. -/
def Aggregate (s : Db) (q : Request) : Prop := Aggregates (Of s q) (·.status) q.status

theorem Aggregates.congr {ι : Type} {on : ι → Prop} {st st' : ι → ItemStatus} {q : RequestStatus}
    (h : Aggregates on st q) (hst : ∀ i, on i → st' i = st i) : Aggregates on st' q := by
  have hlive : ∀ i, on i → (st' i).live = (st i).live := fun i hi => congrArg _ (hst i hi)
  cases q with
  | queued | running =>
    obtain ⟨⟨i, hi, hl⟩, hno⟩ := h
    refine ⟨⟨i, hi, by rw [hlive i hi]; exact hl⟩, fun j hj => ?_⟩
    rw [hst j hj]
    exact hno j hj
  | completed =>
    intro i hi
    rw [hst i hi]
    exact h i hi
  | partly =>
    obtain ⟨⟨i, hi, hp⟩, hall⟩ := h
    refine ⟨⟨i, hi, by rw [hst i hi]; exact hp⟩, fun j hj => ?_⟩
    rw [hst j hj]
    exact hall j hj
  | failed =>
    obtain ⟨⟨i, hi, hf, honly⟩, hall⟩ := h
    refine ⟨⟨i, hi, by rw [hst i hi]; exact hf, fun j hj hjf => honly j hj ?_⟩, fun j hj => ?_⟩
    · rw [← hst j hj]
      exact hjf
    · rw [hlive j hj]
      exact hall j hj
  | cancelled =>
    intro i hi
    rw [hst i hi]
    exact h i hi

/-- The same items under other names. -/
theorem Aggregates.image {ι κ : Type} {on : ι → Prop} {on' : κ → Prop} {st : κ → ItemStatus}
    {f : ι → κ} {q : RequestStatus} (hf : ∀ k, on' k ↔ ∃ i, on i ∧ k = f i)
    (h : Aggregates on (fun i => st (f i)) q) : Aggregates on' st q := by
  have hall : ∀ {P : κ → Prop}, (∀ i, on i → P (f i)) → ∀ k, on' k → P k := by
    intro P hP k hk
    obtain ⟨i, hi, rfl⟩ := (hf k).mp hk
    exact hP i hi
  cases q with
  | queued | running =>
    obtain ⟨⟨i, hi, hl⟩, hno⟩ := h
    exact ⟨⟨f i, (hf _).mpr ⟨i, hi, rfl⟩, hl⟩,
      hall (P := fun k => st k ≠ .failed ∧ st k ≠ .cancelled) hno⟩
  | completed => exact hall (P := fun k => st k = .completed ∨ st k = .skippedCalendar) h
  | partly =>
    obtain ⟨⟨i, hi, hp⟩, hno⟩ := h
    exact ⟨⟨f i, (hf _).mpr ⟨i, hi, rfl⟩, hp⟩,
      hall (P := fun k => st k = .completed ∨ st k = .partly ∨ st k = .skippedCalendar) hno⟩
  | failed =>
    obtain ⟨⟨i, hi, hfl, honly⟩, hno⟩ := h
    refine ⟨⟨f i, (hf _).mpr ⟨i, hi, rfl⟩, hfl, ?_⟩, hall (P := fun k => (st k).live = false) hno⟩
    refine hall (P := fun k => st k = .failed → k = f i) fun j hj hjf => ?_
    rw [honly j hj hjf]
  | cancelled => exact hall (P := fun k => (st k).live = false ∧ st k ≠ .failed) h

/-- An item that was delivered needs nothing more. -/
theorem ItemStatus.not_delivered {st : ItemStatus} (h : st.delivered = false) :
    st.live = true ∨ st = .failed ∨ st = .cancelled := by
  cases st <;> simp_all [ItemStatus.delivered, ItemStatus.live]

/-! ## Maps of the two tables -/

/-- Every row of `t` is the image of a row of `s` that keeps its keys. -/
structure Maps (g : Request → Request) (f : Item → Item) (s t : Db) : Prop where
  requestId : ∀ q, (g q).requestId = q.requestId
  itemId : ∀ i, (f i).itemId = i.itemId
  ofRequest : ∀ i, (f i).requestId = i.requestId
  requests : ∀ q, q ∈ t.requests ↔ ∃ p ∈ s.requests, q = g p
  items : ∀ i, i ∈ t.items ↔ ∃ j ∈ s.items, i = f j

theorem SameRequests.maps (h : SameRequests s t) : Maps id id s t := by
  refine ⟨fun _ => rfl, fun _ => rfl, fun _ => rfl, fun q => ?_, fun i => ?_⟩
  · rw [h.requests]
    exact ⟨fun hq => ⟨q, hq, rfl⟩, by rintro ⟨p, hp, rfl⟩; exact hp⟩
  · rw [h.items]
    exact ⟨fun hi => ⟨i, hi, rfl⟩, by rintro ⟨j, hj, rfl⟩; exact hj⟩

theorem Maps.trans {g g' : Request → Request} {f f' : Item → Item} (h : Maps g f s t)
    (h' : Maps g' f' t u) : Maps (g' ∘ g) (f' ∘ f) s u := by
  refine ⟨fun q => (h'.requestId _).trans (h.requestId q), fun i => (h'.itemId _).trans (h.itemId i),
    fun i => (h'.ofRequest _).trans (h.ofRequest i), fun q => ?_, fun i => ?_⟩
  · rw [h'.requests]
    constructor
    · rintro ⟨p, hp, rfl⟩
      obtain ⟨o, ho, rfl⟩ := (h.requests p).mp hp
      exact ⟨o, ho, rfl⟩
    · rintro ⟨o, ho, rfl⟩
      exact ⟨g o, (h.requests _).mpr ⟨o, ho, rfl⟩, rfl⟩
  · rw [h'.items]
    constructor
    · rintro ⟨j, hj, rfl⟩
      obtain ⟨k, hk, rfl⟩ := (h.items j).mp hj
      exact ⟨k, hk, rfl⟩
    · rintro ⟨k, hk, rfl⟩
      exact ⟨f k, (h.items _).mpr ⟨k, hk, rfl⟩, rfl⟩

/-- Equal maps on the rows there are. -/
theorem Maps.congr {g g' : Request → Request} {f f' : Item → Item} (h : Maps g f s t)
    (hg : ∀ q, g' q = g q) (hf : ∀ i, f' i = f i) : Maps g' f' s t := by
  obtain rfl : g' = g := funext hg
  obtain rfl : f' = f := funext hf
  exact h

theorem maps_setItem (itemId : Uuid) {f : Item → Item} (hf : ∀ i, (f i).itemId = i.itemId)
    (hr : ∀ i, (f i).requestId = i.requestId) :
    Maps id (fun i => if i.itemId = itemId then f i else i) s (s.setItem itemId f hf) := by
  refine ⟨fun _ => rfl, fun i => ?_, fun i => ?_, fun q => ?_, fun i => ?_⟩
  · split
    · exact hf i
    · rfl
  · split
    · exact hr i
    · rfl
  · exact ⟨fun hq => ⟨q, hq, rfl⟩, by rintro ⟨p, hp, rfl⟩; exact hp⟩
  · rw [Db.mem_setItem hf]
    constructor
    · rintro (⟨hi, hne⟩ | ⟨j, hj, hid, rfl⟩)
      · exact ⟨i, hi, (if_neg hne).symm⟩
      · exact ⟨j, hj, (if_pos hid).symm⟩
    · rintro ⟨j, hj, rfl⟩
      by_cases hid : j.itemId = itemId
      · rw [if_pos hid]
        exact Or.inr ⟨j, hj, hid, rfl⟩
      · rw [if_neg hid]
        exact Or.inl ⟨hj, hid⟩

theorem maps_setRequest (requestId : Uuid) {f : Request → Request}
    (hf : ∀ q, (f q).requestId = q.requestId) :
    Maps (fun q => if q.requestId = requestId then f q else q) id s (s.setRequest requestId f hf) := by
  refine ⟨fun q => ?_, fun _ => rfl, fun _ => rfl, fun q => ?_, fun i => ?_⟩
  · split
    · exact hf q
    · rfl
  · rw [Db.mem_setRequest hf]
    constructor
    · rintro (⟨hq, hne⟩ | ⟨p, hp, hid, rfl⟩)
      · exact ⟨q, hq, (if_neg hne).symm⟩
      · exact ⟨p, hp, (if_pos hid).symm⟩
    · rintro ⟨p, hp, rfl⟩
      by_cases hid : p.requestId = requestId
      · rw [if_pos hid]
        exact Or.inr ⟨p, hp, hid, rfl⟩
      · rw [if_neg hid]
        exact Or.inl ⟨hp, hid⟩
  · exact ⟨fun hi => ⟨i, hi, rfl⟩, by rintro ⟨j, hj, rfl⟩; exact hj⟩

/-! ## Changes of one request -/

/-- The item of the request, still to be acquired. -/
structure LiveItem (s : Db) (p : Request) (i : Item) : Prop where
  mem : i ∈ s.items
  ofRequest : i.requestId = p.requestId
  live : i.status.live = true

/-- What a map does to one request and its items. Only items that `may` finish are
ended while their request goes on. -/
inductive Change (may : Uuid → Prop) (s : Db) (g : Request → Request) (f : Item → Item) (p : Request) : Prop where
  | same (request : (g p).status = p.status) (items : ∀ i, Of s p i → (f i).status = i.status)
  | start (live : p.status.live = true) {i : Item} (of : LiveItem s p i)
      (request : (g p).status = .running) (item : (f i).status = .running)
      (others : ∀ j, Of s p j → j ≠ i → (f j).status = j.status)
  | cancel (live : p.status.live = true) (request : (g p).status = .cancelled)
      (items : ∀ i, Of s p i → (f i).status = if i.status.live then .cancelled else i.status)
  | fail (live : p.status.live = true) {i : Item} (of : LiveItem s p i)
      (request : (g p).status = .failed) (item : (f i).status = .failed)
      (others : ∀ j, Of s p j → j ≠ i →
        (f j).status = if j.status.live then .cancelled else j.status)
  | finish (live : p.status.live = true) {i : Item} (of : LiveItem s p i) (allowed : may i.itemId)
      (item : (f i).status = .completed ∨ (f i).status = .partly)
      (others : ∀ j, Of s p j → j ≠ i → (f j).status = j.status)
      (request : ((g p).status = p.status ∧ ∃ j, Of s p j ∧ (f j).status.delivered = false) ∨
        (∀ j, Of s p j → (f j).status.delivered = true) ∧
          (((g p).status = .partly ∧ ∃ j, Of s p j ∧ (f j).status = .partly) ∨
            ((g p).status = .completed ∧ ∀ j, Of s p j → (f j).status ≠ .partly)))

/-- A map that changes every request in one of these ways. -/
def Move (may : Uuid → Prop) (s t : Db) : Prop :=
  ∃ g f, Maps g f s t ∧ ∀ p ∈ s.requests, Change may s g f p

/-- Any finite sequence of moves. -/
def Moves (may : Uuid → Prop) : Db → Db → Prop := ReflTransGen (Move may)

variable {may : Uuid → Prop}

theorem Move.single (h : Move may s t) : Moves may s t := ReflTransGen.single h

/-- A map that keeps every status. -/
theorem Maps.move {g : Request → Request} {f : Item → Item} (h : Maps g f s t)
    (hg : ∀ q, (g q).status = q.status) (hf : ∀ i, (f i).status = i.status) : Move may s t :=
  ⟨g, f, h, fun p _ => .same (hg p) fun i _ => hf i⟩

theorem SameRequests.move (h : SameRequests s t) : Move may s t :=
  h.maps.move (fun _ => rfl) fun _ => rfl

/-! ## The changes keep the aggregate -/

/-- A live request with a live item left. -/
theorem aggregates_live {ι : Type} {on : ι → Prop} {st : ι → ItemStatus} {q : RequestStatus}
    (hq : q.live = true) :
    Aggregates on st q ↔
      (∃ i, on i ∧ (st i).live = true) ∧ ∀ i, on i → st i ≠ .failed ∧ st i ≠ .cancelled := by
  cases q with
  | queued | running => exact Iff.rfl
  | _ => cases hq

theorem delivered_cases {st : ItemStatus} (h : st.delivered = true) :
    st = .completed ∨ st = .partly ∨ st = .skippedCalendar := by
  cases st <;> simp_all [ItemStatus.delivered]

/-- The statuses after a change, still of the old rows. -/
theorem Change.aggregates {g : Request → Request} {f : Item → Item} {p : Request}
    (hc : Change may s g f p) (h : Aggregate s p) :
    Aggregates (Of s p) (fun i => (f i).status) (g p).status := by
  cases hc with
  | same request items =>
    rw [request]
    exact h.congr items
  | @start live i of request item others =>
    obtain ⟨_, hno⟩ := (aggregates_live live).mp h
    rw [request]
    refine ⟨⟨i, ⟨of.mem, of.ofRequest⟩, congrArg ItemStatus.live item⟩, fun j hj => ?_⟩
    change (f j).status ≠ .failed ∧ (f j).status ≠ .cancelled
    by_cases hji : j = i
    · rw [hji, item]
      simp
    · rw [others j hj hji]
      exact hno j hj
  | cancel live request items =>
    obtain ⟨_, hno⟩ := (aggregates_live live).mp h
    rw [request]
    intro i hi
    change (f i).status.live = false ∧ (f i).status ≠ .failed
    rw [items i hi]
    cases hl : i.status.live with
    | true => simp [ItemStatus.live]
    | false => exact ⟨by simpa using hl, by simpa using (hno i hi).1⟩
  | @fail live i of request item others =>
    obtain ⟨_, hno⟩ := (aggregates_live live).mp h
    rw [request]
    have hother : ∀ j, Of s p j → j ≠ i → (f j).status.live = false ∧ (f j).status ≠ .failed := by
      intro j hj hji
      rw [others j hj hji]
      cases hl : j.status.live with
      | true => simp [ItemStatus.live]
      | false => exact ⟨by simpa using hl, by simpa using (hno j hj).1⟩
    refine ⟨⟨i, ⟨of.mem, of.ofRequest⟩, item, fun j hj hjf => ?_⟩, fun j hj => ?_⟩
    · by_contra hji
      exact (hother j hj hji).2 hjf
    · by_cases hji : j = i
      · rw [hji]
        exact congrArg ItemStatus.live item
      · exact (hother j hj hji).1
  | @finish live i of _ item others request =>
    obtain ⟨_, hno⟩ := (aggregates_live live).mp h
    have hgood : ∀ j, Of s p j → (f j).status ≠ .failed ∧ (f j).status ≠ .cancelled := by
      intro j hj
      by_cases hji : j = i
      · rw [hji]
        rcases item with hs | hs <;> simp [hs]
      · rw [others j hj hji]
        exact hno j hj
    rcases request with ⟨hsame, j, hj, hopen⟩ | ⟨hall, ⟨hpartly, hex⟩ | ⟨hcompleted, hnone⟩⟩
    · rw [hsame, aggregates_live live]
      refine ⟨⟨j, hj, ?_⟩, hgood⟩
      rcases ItemStatus.not_delivered hopen with hl | hf | hf
      · exact hl
      · exact absurd hf (hgood j hj).1
      · exact absurd hf (hgood j hj).2
    · rw [hpartly]
      exact ⟨hex, fun k hk => delivered_cases (hall k hk)⟩
    · rw [hcompleted]
      intro k hk
      rcases delivered_cases (hall k hk) with hs | hs | hs
      · exact Or.inl hs
      · exact absurd hs (hnone k hk)
      · exact Or.inr hs

/-- The items of the new row are the images of the old one's. -/
theorem Maps.of {g : Request → Request} {f : Item → Item} (h : Maps g f s t) (p : Request)
    (i : Item) : Of t (g p) i ↔ ∃ j, Of s p j ∧ i = f j := by
  unfold Of
  rw [h.items, h.requestId]
  constructor
  · rintro ⟨⟨j, hj, rfl⟩, hid⟩
    exact ⟨j, ⟨hj, (h.ofRequest j).symm.trans hid⟩, rfl⟩
  · rintro ⟨j, ⟨hj, hid⟩, rfl⟩
    exact ⟨⟨j, hj, rfl⟩, (h.ofRequest j).trans hid⟩

theorem Move.aggregate (h : Move may s t) (hs : ∀ q ∈ s.requests, Aggregate s q) :
    ∀ q ∈ t.requests, Aggregate t q := by
  obtain ⟨g, f, hm, hc⟩ := h
  intro q hq
  obtain ⟨p, hp, rfl⟩ := (hm.requests q).mp hq
  exact ((hc p hp).aggregates (hs p hp)).image (hm.of p)

theorem Moves.aggregate (h : Moves may s t) (hs : ∀ q ∈ s.requests, Aggregate s q) :
    ∀ q ∈ t.requests, Aggregate t q := by
  induction h with
  | refl => exact hs
  | tail _ hmove ih => exact hmove.aggregate ih

/-! ## Terminal statuses -/

/-- Ended requests and items keep their status. -/
structure Settled (s t : Db) : Prop where
  requests : ∀ q ∈ s.requests, q.status.live = false →
    ∃ q' ∈ t.requests, q'.requestId = q.requestId ∧ q'.status = q.status
  items : ∀ i ∈ s.items, i.status.live = false →
    ∃ i' ∈ t.items, i'.itemId = i.itemId ∧ i'.requestId = i.requestId ∧ i'.status = i.status

theorem Settled.refl (s : Db) : Settled s s :=
  ⟨fun q hq _ => ⟨q, hq, rfl, rfl⟩, fun i hi _ => ⟨i, hi, rfl, rfl, rfl⟩⟩

theorem Settled.trans (h : Settled s t) (h' : Settled t u) : Settled s u := by
  refine ⟨fun q hq hl => ?_, fun i hi hl => ?_⟩
  · obtain ⟨q', hq', hid, hst⟩ := h.requests q hq hl
    obtain ⟨q'', hq'', hid', hst'⟩ := h'.requests q' hq' (hst ▸ hl)
    exact ⟨q'', hq'', hid'.trans hid, hst'.trans hst⟩
  · obtain ⟨i', hi', hid, hof, hst⟩ := h.items i hi hl
    obtain ⟨i'', hi'', hid', hof', hst'⟩ := h'.items i' hi' (hst ▸ hl)
    exact ⟨i'', hi'', hid'.trans hid, hof'.trans hof, hst'.trans hst⟩

/-- A change never touches an ended item. -/
theorem Change.item {g : Request → Request} {f : Item → Item} {p : Request}
    (hc : Change may s g f p) {i : Item} (hi : Of s p i) (hl : i.status.live = false) :
    (f i).status = i.status := by
  have hne : ∀ {j : Item}, LiveItem s p j → i ≠ j := by
    rintro j of rfl
    rw [of.live] at hl
    cases hl
  cases hc with
  | same _ items => exact items i hi
  | start _ of _ _ others => exact others i hi (hne of)
  | cancel _ _ items =>
    rw [items i hi, hl]
    rfl
  | fail _ of _ _ others =>
    rw [others i hi (hne of), hl]
    rfl
  | finish _ of _ _ others _ => exact others i hi (hne of)

theorem Change.request {g : Request → Request} {f : Item → Item} {p : Request}
    (hc : Change may s g f p) (hl : p.status.live = false) : (g p).status = p.status := by
  cases hc with
  | same request _ => exact request
  | start live | cancel live | fail live | finish live =>
    rw [hl] at live
    cases live

theorem Move.settled (h : Move may s t)
    (hparent : ∀ i ∈ s.items, ∃ q ∈ s.requests, q.requestId = i.requestId) : Settled s t := by
  obtain ⟨g, f, hm, hc⟩ := h
  refine ⟨fun q hq hl => ?_, fun i hi hl => ?_⟩
  · exact ⟨g q, (hm.requests _).mpr ⟨q, hq, rfl⟩, hm.requestId q, (hc q hq).request hl⟩
  · obtain ⟨q, hq, hid⟩ := hparent i hi
    exact ⟨f i, (hm.items _).mpr ⟨i, hi, rfl⟩, hm.itemId i, hm.ofRequest i,
      (hc q hq).item ⟨hi, hid.symm⟩ hl⟩

theorem Move.parents (h : Move may s t)
    (hparent : ∀ i ∈ s.items, ∃ q ∈ s.requests, q.requestId = i.requestId) :
    ∀ i ∈ t.items, ∃ q ∈ t.requests, q.requestId = i.requestId := by
  obtain ⟨g, f, hm, _⟩ := h
  intro i hi
  obtain ⟨j, hj, rfl⟩ := (hm.items i).mp hi
  obtain ⟨q, hq, hid⟩ := hparent j hj
  exact ⟨g q, (hm.requests _).mpr ⟨q, hq, rfl⟩,
    (hm.requestId q).trans (hid.trans (hm.ofRequest j).symm)⟩

theorem Moves.settled (h : Moves may s t)
    (hparent : ∀ i ∈ s.items, ∃ q ∈ s.requests, q.requestId = i.requestId) :
    Settled s t ∧ ∀ i ∈ t.items, ∃ q ∈ t.requests, q.requestId = i.requestId := by
  induction h with
  | refl => exact ⟨.refl s, hparent⟩
  | tail _ hmove ih => exact ⟨ih.1.trans (hmove.settled ih.2), hmove.parents ih.2⟩

/-! ## Items that ended before their request -/

/-- The item has ended and its request goes on. -/
structure EndedEarly (s : Db) (i : Item) : Prop where
  mem : i ∈ s.items
  ended : i.status.live = false
  live : ∀ q ∈ s.requests, q.requestId = i.requestId → q.status.live = true

/-- Such an item had ended before, unless it was one that might finish. -/
def Quiet (may : Uuid → Prop) (s t : Db) : Prop :=
  ∀ i', EndedEarly t i' → ¬ may i'.itemId → ∃ i, EndedEarly s i ∧ i.itemId = i'.itemId

theorem Quiet.trans (h : Quiet may s t) (h' : Quiet may t u) : Quiet may s u := by
  intro i'' he hno
  obtain ⟨i', he', hid'⟩ := h' i'' he hno
  obtain ⟨i, hi, hid⟩ := h i' he' (hid' ▸ hno)
  exact ⟨i, hi, hid.trans hid'⟩

theorem Move.quiet (h : Move may s t)
    (hparent : ∀ i ∈ s.items, ∃ q ∈ s.requests, q.requestId = i.requestId) : Quiet may s t := by
  obtain ⟨g, f, hm, hc⟩ := h
  intro i' he hno
  obtain ⟨i, hi, rfl⟩ := (hm.items i').mp he.mem
  obtain ⟨p, hp, hid⟩ := hparent i hi
  have hgoes : (g p).status.live = true :=
    he.live (g p) ((hm.requests _).mpr ⟨p, hp, rfl⟩)
      ((hm.requestId p).trans (hid.trans (hm.ofRequest i).symm))
  have hof : Of s p i := ⟨hi, hid.symm⟩
  have hended := he.ended
  rw [hm.itemId] at hno ⊢
  -- a request that goes on was live, and only one change ends an item of it
  have hkept : p.status.live = true ∧ (f i).status = i.status := by
    cases hc p hp with
    | same request items => exact ⟨request ▸ hgoes, items i hof⟩
    | @start live j of request item others =>
      refine ⟨live, others i hof ?_⟩
      rintro rfl
      rw [item] at hended
      cases hended
    | cancel _ request =>
      rw [request] at hgoes
      cases hgoes
    | fail _ _ request =>
      rw [request] at hgoes
      cases hgoes
    | @finish live j of allowed _ others _ =>
      refine ⟨live, others i hof ?_⟩
      rintro rfl
      exact hno allowed
  refine ⟨i, ⟨hi, hkept.2 ▸ hended, fun q hq hqid => ?_⟩, rfl⟩
  rw [Table.eq_of_key hq hp (hqid.trans hid.symm)]
  exact hkept.1

theorem Moves.quiet (h : Moves may s t)
    (hparent : ∀ i ∈ s.items, ∃ q ∈ s.requests, q.requestId = i.requestId) : Quiet may s t := by
  induction h with
  | refl => exact fun i he _ => ⟨i, he, rfl⟩
  | tail hmoves hmove ih =>
    exact ih.trans (hmove.quiet (Moves.settled hmoves hparent).2)

end FinDB.ProviderWork
