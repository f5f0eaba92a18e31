import FinDB.ProviderWork.Transitions

/-! # Requests and their items

An ended request never has a live item and never becomes live again. -/
namespace FinDB.ProviderWork
open FinDB.Lib Relation

variable {cfg : Config} {mode : Mode} {s t : Db}

/-- Items keep their parents while the requests keep their ids. -/
theorem parent_keeps {requests : Table Request.requestId} {k : Uuid}
    (hkeeps : s.requests.Keeps requests) (h : ∃ q ∈ s.requests, q.requestId = k) :
    ∃ q ∈ requests, q.requestId = k := by
  obtain ⟨q, hq, hk⟩ := h
  obtain ⟨q', hq', hid⟩ := hkeeps q hq
  exact ⟨q', hq', hid.trans hk⟩

theorem RequestsEnded.item (h : RequestsEnded s) {i : Item} {items}
    (parent : ∃ q ∈ s.requests, q.requestId = i.requestId ∧
      (i.status.live = true → q.status.live = true))
    (hi : s.items.insert? i = some items) : RequestsEnded { s with items } := by
  obtain ⟨q, hq, hid, hlive⟩ := parent
  refine ⟨fun j hj => ?_, fun p hp hended j hj hjp => ?_⟩
  · rcases (Table.mem_insert? hi).mp hj with hj | rfl
    · exact h.parent j hj
    · exact ⟨q, hq, hid⟩
  · rcases (Table.mem_insert? hi).mp hj with hj | rfl
    · exact h.ended p hp hended j hj hjp
    · have : q = p := Table.eq_of_key hq hp (hid.trans hjp)
      subst this
      cases hl : j.status.live with
      | false => rfl
      | true => rw [hlive hl] at hended; cases hended

theorem RequestsEnded.request (h : RequestsEnded s) {q : Request} {requests}
    (hq : s.requests.insert? q = some requests) : RequestsEnded { s with requests } := by
  refine ⟨fun i hi => ?_, fun p hp hended i hi hip => ?_⟩
  · exact parent_keeps (Table.keeps_insert? hq) (h.parent i hi)
  · rcases (Table.mem_insert? hq).mp hp with hp | rfl
    · exact h.ended p hp hended i hi hip
    · obtain ⟨r, hr, hri⟩ := h.parent i hi
      exact absurd (hri.trans hip) (Table.insert?_fresh hq r hr)

theorem RequestsEnded.setItem (h : RequestsEnded s) {itemId : Uuid} {f : Item → Item} {hf}
    (ends : EndsItem f) : RequestsEnded (s.setItem itemId f hf) := by
  refine ⟨fun i hi => ?_, fun q hq hended i hi hiq => ?_⟩
  · rcases (Db.mem_setItem hf).mp hi with ⟨hi, _⟩ | ⟨j, hj, _, rfl⟩
    · exact h.parent i hi
    · rw [(ends j).1]; exact h.parent j hj
  · rcases (Db.mem_setItem hf).mp hi with ⟨hi, _⟩ | ⟨j, hj, _, rfl⟩
    · exact h.ended q hq hended i hi hiq
    · rw [(ends j).1] at hiq
      rcases (ends j).2 with hs | hs
      · rw [hs]; exact h.ended q hq hended j hj hiq
      · exact hs

theorem RequestsEnded.startItem (h : RequestsEnded s) {i : Item} {now : Instant}
    (mem : i ∈ s.items) : RequestsEnded (s.startItem i now) := by
  refine ⟨fun j hj => ?_, fun p hp hended j hj hjp => ?_⟩
  · apply parent_keeps (Table.keeps_modify (by intro _; rfl))
    rcases (Db.mem_setItem (by intro _; rfl)).mp hj with ⟨hj, _⟩ | ⟨k, hk, _, rfl⟩
    · exact h.parent j hj
    · exact h.parent k hk
  · rcases (Db.mem_setRequest (by intro _; rfl)).mp hp with ⟨hp, hne⟩ | ⟨p', _, _, rfl⟩
    · rcases (Db.mem_setItem (by intro _; rfl)).mp hj with ⟨hj, _⟩ | ⟨k, hk, hki, rfl⟩
      · exact h.ended p hp hended j hj hjp
      · -- the started item's own request is running, so not the ended one
        have : k = i := Table.eq_of_key hk mem hki
        subst this
        exact absurd hjp.symm hne
    · cases hended

theorem RequestsEnded.endRequest (h : RequestsEnded s) {requestId : Uuid} {f : Request → Request}
    {hf} (noneLive : ∀ i ∈ s.items, i.requestId = requestId → i.status.live = false) :
    RequestsEnded (s.setRequest requestId f hf) := by
  refine ⟨fun i hi => parent_keeps (Table.keeps_modify hf) (h.parent i hi), fun q hq hended i hi hiq => ?_⟩
  rcases (Db.mem_setRequest hf).mp hq with ⟨hq, _⟩ | ⟨p, hp, hpr, rfl⟩
  · exact h.ended q hq hended i hi hiq
  · rw [hf] at hiq
    exact noneLive i hi (hiq.trans hpr)

theorem trans_requestsEnded (h : Trans cfg mode s t) (hs : RequestsEnded s) : RequestsEnded t := by
  cases h with
  | item _ parent hi => exact hs.item parent hi
  | request hq => exact hs.request hq
  | endItem itemId f hf ends => exact hs.setItem ends
  | startItem now _ mem _ _ _ _ _ => exact hs.startItem mem
  | endRequest requestId f hf _ noneLive _ => exact hs.endRequest noneLive
  | _ => exact ⟨hs.parent, hs.ended⟩

theorem transs_requestsEnded (h : Transs cfg mode s t) (hs : RequestsEnded s) :
    RequestsEnded t := by
  induction h with
  | refl => exact hs
  | tail _ ht ih => exact trans_requestsEnded ht ih

end FinDB.ProviderWork
