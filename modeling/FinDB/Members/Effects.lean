import FinDB.Members.Store
import Mathlib.Data.Option.Basic

/-! # What a method does to the rows

A row keeps its identity and the body it has; only the methods of a key change its reason. -/
namespace FinDB.Members
open FinDB.Lib

/-- The stored digest is that of the body. -/
def Work.Sealed (checksum : Bytes → String) (w : Work) : Prop :=
  ∀ b, w.body = some b → w.bodySha256 = some (checksum b)

structure Work.Grows (checksum : Bytes → String) (w v : Work) : Prop where
  identity : (v.key, v.provider, v.planId, v.memberKey) = (w.key, w.provider, w.planId, w.memberKey)
  body : ∀ b, w.body = some b → v.body = some b
  digest : w.Sealed checksum → v.Sealed checksum

section
variable {checksum : Bytes → String}

theorem Work.Grows.refl (w : Work) : w.Grows checksum w := ⟨rfl, fun _ h => h, id⟩

theorem Work.Grows.trans {w v u : Work} (h : w.Grows checksum v) (h' : v.Grows checksum u) :
    w.Grows checksum u :=
  ⟨h'.identity.trans h.identity, fun b hb => h'.body b (h.body b hb), fun hs => h'.digest (h.digest hs)⟩

/-- Neither the identity nor the body is written. -/
theorem Work.Grows.of_eq {w v : Work}
    (hi : (v.key, v.provider, v.planId, v.memberKey) = (w.key, w.provider, w.planId, w.memberKey))
    (hb : v.body = w.body) (hd : v.bodySha256 = w.bodySha256) : w.Grows checksum v := by
  refine ⟨hi, fun b h => hb.trans h, fun hs b h => ?_⟩
  rw [hd]
  exact hs b (hb.symm.trans h)

theorem Work.Grows.key {w v : Work} (h : w.Grows checksum v) : v.key = w.key :=
  congrArg (·.1) h.identity

theorem Work.Grows.planId {w v : Work} (h : w.Grows checksum v) : v.planId = w.planId :=
  congrArg (·.2.2.1) h.identity

/-- The rows of `s` are those of `t`, one by one. -/
def Rows (R : Work → Work → Prop) (s t : Store) : Prop :=
  ∀ k, Option.Rel R (s.works.find? k) (t.works.find? k)

variable {R : Work → Work → Prop} {T : String → Prop} {s t u : Store}

theorem Rows.of_eq (hR : ∀ w, R w w) (h : t.works = s.works) : Rows R s t := by
  intro k
  rw [h]
  cases s.works.find? k with
  | none => exact .none
  | some w => exact .some (hR w)

theorem Rows.forth (h : Rows R s t) {k : String} {w : Work} (hw : s.works.find? k = some w) :
    ∃ v, t.works.find? k = some v ∧ R w v := by
  have hk := h k
  rw [hw] at hk
  cases hv : t.works.find? k with
  | none =>
    rw [hv] at hk
    cases hk
  | some v =>
    rw [hv] at hk
    cases hk with
    | some hr => exact ⟨v, rfl, hr⟩

theorem Rows.back (h : Rows R s t) {k : String} {v : Work} (hv : t.works.find? k = some v) :
    ∃ w, s.works.find? k = some w ∧ R w v := by
  have hk := h k
  rw [hv] at hk
  cases hw : s.works.find? k with
  | none =>
    rw [hw] at hk
    cases hk
  | some w =>
    rw [hw] at hk
    cases hk with
    | some hr => exact ⟨w, rfl, hr⟩

theorem Rows.trans (h : Rows R s t) (h' : Rows R t u) (hR : ∀ w v x, R w v → R v x → R w x) :
    Rows R s u := by
  intro k
  cases hw : s.works.find? k with
  | none =>
    have hk := h k
    rw [hw] at hk
    cases hv : t.works.find? k with
    | none =>
      have hk' := h' k
      rw [hv] at hk'
      exact hk'
    | some v =>
      rw [hv] at hk
      cases hk
  | some w =>
    obtain ⟨v, hv, hwv⟩ := h.forth hw
    obtain ⟨x, hx, hvx⟩ := h'.forth hv
    rw [hx]
    exact .some (hR _ _ _ hwv hvx)

theorem find?_setWork {k j : String} {f : Work → Work} {hf} :
    (s.setWork k f hf).works.find? j =
      (s.works.find? j).map fun w => if w.key = k then f w else w := by
  unfold Store.setWork
  dsimp only
  rw [Table.find?_modify]
  split
  · rename_i hkj
    refine Option.map_congr fun w hw => ?_
    rw [if_pos ((Table.find?_eq_some.mp hw).2.trans hkj)]
  · rename_i hne
    refine Option.map_congr fun w hw => ?_
    rw [if_neg fun hk => hne ((Table.find?_eq_some.mp hw).2.symm.trans hk)]

theorem rows_setWork {k : String} {f : Work → Work} {hf}
    (hset : ∀ w, s.works.find? k = some w → R w (f w)) (hrest : ∀ w, w.key ≠ k → R w w) :
    Rows R s (s.setWork k f hf) := by
  intro j
  rw [find?_setWork]
  cases hw : s.works.find? j with
  | none => exact .none
  | some w =>
    have hkey := (Table.find?_eq_some.mp hw).2
    rw [Option.map_some]
    refine .some ?_
    split
    · rename_i hk
      exact hset w (hk ▸ hkey ▸ hw)
    · rename_i hk
      exact hrest w hk

theorem rows_update {p : Work → Bool} {f : Work → Work} {hf} (hset : ∀ w, p w = true → R w (f w))
    (hrest : ∀ w, R w w) : Rows R s { s with works := s.works.update p f hf } := by
  intro j
  dsimp only
  rw [Table.find?_update]
  cases s.works.find? j with
  | none => exact .none
  | some w =>
    rw [Option.map_some]
    refine .some ?_
    split
    · rename_i hp
      exact hset w hp
    · exact hrest w

@[simp] theorem markDirty_works (s : Store) (k : String) : (s.markDirty k).works = s.works := by
  unfold Store.markDirty
  split <;> rfl

@[simp] theorem markDirty_receipts (s : Store) (k : String) : (s.markDirty k).receipts = s.receipts := by
  unfold Store.markDirty
  split <;> rfl

/-! ## Methods of a key -/

/-- Rows grow, only those of `T` change their reason, and receipts stay. -/
structure Touches (checksum : Bytes → String) (T : String → Prop) (s t : Store) : Prop where
  rows : Rows (fun w v => w.Grows checksum v ∧ (¬ T w.key → v.reason = w.reason)) s t
  receipts : ∀ r ∈ s.receipts, r ∈ t.receipts

theorem Touches.trans (h : Touches checksum T s t) (h' : Touches checksum T t u) :
    Touches checksum T s u := by
  refine ⟨h.rows.trans h'.rows fun w v x hwv hvx => ⟨hwv.1.trans hvx.1, fun hT => ?_⟩,
    fun r hr => h'.receipts r (h.receipts r hr)⟩
  have hTv : ¬ T v.key := by
    rw [hwv.1.key]
    exact hT
  exact (hvx.2 hTv).trans (hwv.2 hT)

/-- A method that writes other tables. -/
theorem Touches.of_works (hw : t.works = s.works) (hr : t.receipts = s.receipts) :
    Touches checksum T s t :=
  ⟨.of_eq (fun w => ⟨Work.Grows.refl w, fun _ => rfl⟩) hw, fun _ h => hr ▸ h⟩

theorem touches_setWork {k : String} {f : Work → Work} {hf}
    (h : ∀ w : Work, w.Grows checksum (f w)) : Touches checksum (· = k) s (s.setWork k f hf) :=
  ⟨rows_setWork (fun w hw => ⟨h w, fun hne => absurd (Table.find?_eq_some.mp hw).2 hne⟩)
    fun w _ => ⟨Work.Grows.refl w, fun _ => rfl⟩, fun _ hr => hr⟩

theorem touches_markDirty (s : Store) (k : String) : Touches checksum T s (s.markDirty k) :=
  .of_works (markDirty_works s k) (markDirty_receipts s k)

theorem touches_claim {k : String} {now lease : Instant} {cursor : Option Nat} {b : Bool}
    (h : s.claim k now lease cursor = (t, b)) : Touches checksum (· = k) s t := by
  unfold Store.claim at h
  split at h
  · cases h
    exact .of_works rfl rfl
  · split at h
    · cases h
      exact .of_works rfl rfl
    · have hset : Touches checksum (· = k) s (s.setWork k fun w =>
          { w with leaseUntil := now + lease, attempts := w.attempts + 1 }) :=
        touches_setWork fun w => .of_eq rfl rfl rfl
      dsimp only at h
      split at h
      · cases h
        exact hset
      · cases h
        exact hset.trans (.of_works rfl rfl)

theorem touches_prepare {k : String} {body : Bytes} (h : s.prepare checksum k body = .ok t) :
    Touches checksum (· = k) s t ∧ ∃ w, t.works.find? k = some w ∧ w.body = some body := by
  obtain ⟨_, hsame, h⟩ := ok_bind h
  cases h
  rw [ensure_ok] at hsame
  refine ⟨⟨rows_setWork (fun w hw => ⟨⟨rfl, fun b hb => ?_, fun _ b hb => ?_⟩, fun hne => ?_⟩)
    fun w _ => ⟨Work.Grows.refl w, fun _ => rfl⟩, fun _ hr => hr⟩, ?_⟩
  · rw [hw, Option.any_some, hb, Option.all_some, beq_iff_eq] at hsame
    rw [hsame]
  · cases hb
    rfl
  · exact absurd (Table.find?_eq_some.mp hw).2 hne
  · cases hw : s.works.find? k with
    | none =>
      rw [hw] at hsame
      cases hsame
    | some w =>
      rw [find?_setWork, hw, Option.map_some, if_pos (Table.find?_eq_some.mp hw).2]
      exact ⟨_, rfl, rfl⟩

theorem touches_saveReceipt {k i run : String} (h : s.saveSequenceReceipt k i run = .ok t) :
    Touches checksum T s t ∧ t.works = s.works ∧ t.receipts.find? (k, i) ≠ none := by
  obtain ⟨_, hsaved, h⟩ := ok_bind h
  cases h
  rw [ensure_ok, beq_iff_eq] at hsaved
  refine ⟨⟨.of_eq (fun w => ⟨.refl w, fun _ => rfl⟩) rfl, fun r hr => ?_⟩, rfl, fun hnone => ?_⟩
  · exact Table.mem_insertNew.mpr (Or.inl hr)
  · unfold Store.sequenceReceipt at hsaved
    rw [hnone] at hsaved
    cases hsaved

theorem touches_deferWait {k reason : String} {now : Instant} {delay : Nat}
    (h : s.deferWait k now reason delay = .ok t) : Touches checksum (· = k) s t := by
  obtain ⟨_, _, h⟩ := ok_bind h
  cases h
  exact touches_setWork fun _ => .of_eq rfl rfl rfl

theorem startOutage_works (s : Store) (k : String) (now : Instant) :
    (s.startOutage k now).1.works = s.works ∧ (s.startOutage k now).1.receipts = s.receipts := by
  unfold Store.startOutage
  split <;> exact ⟨rfl, rfl⟩

theorem touches_recordNoDataTrip (s : Store) (planId : String) (now : Instant) :
    Touches checksum T s (s.recordNoDataTrip planId now) :=
  ⟨rows_update (fun _ _ => ⟨.of_eq rfl rfl rfl, fun _ => rfl⟩) fun w => ⟨.refl w, fun _ => rfl⟩,
    fun _ hr => hr⟩

theorem touches_evaluate (s : Store) (planId : String) (summary : Summary) :
    Touches checksum T s (s.evaluate planId summary) := by
  unfold Store.evaluate
  dsimp only
  split
  · exact ⟨rows_update (fun w _ => ⟨.of_eq rfl rfl rfl, fun _ => rfl⟩) fun w => ⟨.refl w, fun _ => rfl⟩,
      fun _ hr => hr⟩
  · exact .of_works rfl rfl

theorem touches_stageSourceError (s : Store) (k : String) :
    Touches checksum (· = k) s (s.stageSourceError k) := by
  have hset : Touches checksum (· = k) s (s.setWork k fun w =>
      { w with
        status := w.waiting, reason := some "source_error_pending", leaseUntil := 0, nextAt := 0 }) :=
    touches_setWork fun w => .of_eq rfl rfl rfl
  exact hset.trans (touches_markDirty _ k)

theorem touches_stageEmptyResponse {k reason : String} {now delay : Instant} {exhausted : Bool}
    (h : s.stageEmptyResponse k now delay exhausted reason = .ok t) :
    Touches checksum (· = k) s t := by
  obtain ⟨_, _, h⟩ := ok_bind h
  cases h
  refine Touches.trans ?_ (touches_setWork fun w => ?_)
  · exact .of_works rfl rfl
  · unfold Work.stage
    split
    · exact .of_eq rfl rfl rfl
    · exact .refl w

theorem touches_acknowledgeEmpty (s : Store) (k : String) :
    Touches checksum (· = k) s (s.acknowledgeEmpty k) := by
  unfold Store.acknowledgeEmpty
  split
  · exact .of_works rfl rfl
  · rename_i row _
    have hset : Touches checksum (· = k) s (s.setWork k fun w =>
        { w with
          status := if row.exhausted then .manual else .pending, reason := some row.reason,
          nextAt := row.nextAt, leaseUntil := 0 }) :=
      touches_setWork fun w => .of_eq rfl rfl rfl
    dsimp only
    refine (hset.trans ?_).trans (touches_markDirty _ k)
    exact .of_works rfl rfl

theorem touches_applyMemberRepair {k id : String} {b : Bool}
    (h : s.applyMemberRepair k id = .ok (t, b)) : Touches checksum (· = k) s t := by
  unfold Store.applyMemberRepair at h
  split at h
  · cases h
    exact .of_works rfl rfl
  · obtain ⟨w, _, h⟩ := ok_bind h
    split at h
    · cases h
      exact .of_works rfl rfl
    · obtain ⟨_, _, h⟩ := ok_bind h
      cases h
      refine Touches.trans ?_ (touches_setWork fun w => .of_eq rfl rfl rfl)
      exact .of_works rfl rfl

theorem Work.exhaust_grows (w : Work) : w.Grows checksum w.exhaust := by
  unfold Work.exhaust
  split
  · exact .of_eq rfl rfl rfl
  · exact .refl w

theorem touches_finish (s : Store) (k : String) (status : WorkStatus) (reason receipt : Option String)
    (now : Instant) : Touches checksum (· = k) s (s.finish k status reason receipt now) := by
  have hrefund : Touches checksum (· = k) s
      (if reason == some "normalizing" then s.setWork k Work.refund else s) := by
    split
    · exact touches_setWork fun w => .of_eq rfl rfl rfl
    · exact .of_works rfl rfl
  have hsettle : ∀ (s : Store) (nextAt : Instant), Touches checksum (· = k) s
      (s.setWork k fun w => w.settle status reason receipt nextAt) :=
    fun s nextAt => touches_setWork fun w => .of_eq rfl rfl rfl
  have hexhaust : ∀ s : Store,
      Touches checksum (· = k) s (s.setWork k Work.exhaust Work.exhaust_key) :=
    fun s => touches_setWork Work.exhaust_grows
  exact ((hrefund.trans (hsettle _ _)).trans (hexhaust _)).trans (touches_markDirty _ k)

/-- Methods that write neither rows nor receipts. -/
theorem touches_clearNoDataTrips (s : Store) (planId : String) :
    Touches checksum T s (s.clearNoDataTrips planId) := .of_works rfl rfl

theorem touches_clearProviderOutage (s : Store) (planId : String) :
    Touches checksum T s (s.clearProviderOutage planId) := .of_works rfl rfl

end
end FinDB.Members
