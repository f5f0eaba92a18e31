import FinDB.ProviderWork.ClosedRounds

/-! # Leaving drain-only

A tail retry inherits `drain_only`, and a claim is the only place that clears it.
It does so for daily and historical works whose retained deliveries have ended;
a maintenance round that was once recovered during a cooldown hands the flag on
from retry to retry. -/
namespace FinDB.ProviderWork
open FinDB.Lib Relation

variable {cfg : Config} {s t : Db}

/-! ## Works outside the historical domain -/

/-- Works that no item names keep their rows and their rounds. -/
def SparesOthers (s t : Db) : Prop :=
  ∀ w ∈ t.works, (∀ i, w.stableKey ≠ .historical i) →
    w ∈ s.works ∧ ∀ a : Attempt, a.workId = w.workId → (a ∈ t.attempts ↔ a ∈ s.attempts)

theorem SparesOthers.trans {u : Db} (h : SparesOthers s t) (h' : SparesOthers t u) :
    SparesOthers s u := by
  intro w hw hkey
  obtain ⟨hwt, hrounds'⟩ := h' w hw hkey
  obtain ⟨hws, hrounds⟩ := h w hwt hkey
  exact ⟨hws, fun a ha => (hrounds' a ha).trans (hrounds a ha)⟩

/-- Rewriting the queued rounds of one work leaves those of another alone. -/
theorem mem_update_queuedOf {workId : Uuid} {f : Attempt → Attempt} {a : Attempt}
    (hf : ∀ a, (f a).attemptId = a.attemptId) (hwork : ∀ a, (f a).workId = a.workId) (ha : a.workId ≠ workId) :
    a ∈ s.attempts.update (queuedOf workId) f hf ↔ a ∈ s.attempts := by
  rw [Table.mem_update]
  constructor
  · rintro ⟨b, hb, rfl⟩
    split
    · rename_i hq
      simp only [queuedOf, Bool.and_eq_true, beq_iff_eq] at hq
      rw [if_pos (by simpa [queuedOf] using hq), hwork] at ha
      exact absurd hq.1 ha
    · exact hb
  · intro hmem
    refine ⟨a, hmem, ?_⟩
    rw [if_neg (by simp [queuedOf, ha])]

theorem sparesOthers_cancel (now : Instant) (itemId : Uuid) (s : Db) :
    SparesOthers s (cancelQueuedItemWork now itemId s) := by
  unfold cancelQueuedItemWork
  split
  · exact fun w hw _ => ⟨hw, fun _ _ => Iff.rfl⟩
  · rename_i work hfind
    obtain ⟨hmem, hkey⟩ := workByKey_some hfind
    have hother : ∀ w ∈ s.works, (∀ i, w.stableKey ≠ .historical i) → w.workId ≠ work.workId := by
      intro w hw hnot hid
      rw [Table.eq_of_key hw hmem hid] at hnot
      exact hnot itemId hkey
    split
    · exact fun w hw _ => ⟨hw, fun _ _ => Iff.rfl⟩
    · split
      · intro w hw hnot
        exact ⟨hw, fun a ha => mem_update_queuedOf (by intro _; rfl) (by intro _; rfl)
          (ha ▸ hother w hw hnot)⟩
      · intro w hw hnot
        rcases (Table.mem_modify_row (by intro _; rfl) hmem).mp hw with ⟨hws, _⟩ | rfl
        · exact ⟨hws, fun a ha => mem_update_queuedOf (by intro _; rfl) (by intro _; rfl)
          (ha ▸ hother w hws hnot)⟩
        · exact absurd hkey (hnot itemId)

theorem cancels_sparesOthers : Cancels SparesOthers where
  refl _ _ hw _ := ⟨hw, fun _ _ => Iff.rfl⟩
  trans _ _ _ := SparesOthers.trans
  work := sparesOthers_cancel
  item _ _ _ _ _ hw _ := ⟨hw, fun _ _ => Iff.rfl⟩
  request _ _ _ _ _ hw _ := ⟨hw, fun _ _ => Iff.rfl⟩

/-! ## A fresh claim -/

/-- What a claim of a free provider answers: the first eligible round after the
reconciliation. -/
theorem claim_fresh {now utc : Instant} {token : Uuid} {r : ClaimRequest} {c : Claimed}
    (idle : s.owner.attemptId = none) (h : claim cfg now utc token r s = .ok (t, some c)) :
    ∃ work attempt, (work, attempt) ∈ candidates cfg now (reconcileCancelledQueue cfg now utc s) ∧
      c.work = { work with state := .running } ∧ c.attempt.attemptId = attempt.attemptId ∧
      c.attempt.drainOnly =
        claimDrainOnly cfg now utc (reconcileCancelledQueue cfg now utc s) work attempt := by
  unfold claim at h
  obtain ⟨_, _, h⟩ := ok_bind h
  obtain ⟨_, _, h⟩ := ok_bind h
  obtain ⟨_, _, h⟩ := ok_bind h
  simp only [idle] at h
  have hfresh := ok_pure h
  unfold claimFresh at hfresh
  generalize reconcileCancelledQueue cfg now utc s = u at hfresh ⊢
  simp only at hfresh
  split at hfresh
  · cases hfresh
  · rename_i work attempt hfirst
    split at hfresh
    · cases hfresh
    · cases hfresh
      exact ⟨work, attempt, firstInQueue_mem hfirst, rfl, rfl, rfl⟩

/-- Nothing holds the work back any more: its gate is open, the account is not
cooling, every preparation is accepted and every accepted run has ended. -/
structure MayResume (cfg : Config) (now utc : Instant) (s : Db) (work : Work) : Prop where
  kind : work.kind = .daily ∨ work.kind = .historical ∨ work.kind = .maintenance
  gate : acquisitionOpen cfg utc s work true = true
  warm : ∀ t, s.owner.acquisitionNotBefore = some t → t ≤ now
  accepted : ∀ k ∈ s.preparedKeys work.workId, ∃ r ∈ s.receiptsOf work.workId, r.memberKey = k
  ended : ∀ r ∈ s.receiptsOf work.workId, (s.run r.runId).status.terminalRun = true

theorem MayResume.drained {now utc : Instant} {work : Work} (h : MayResume cfg now utc s work) :
    s.drained work.workId = true := by
  have hpending : s.pendingPrepared work.workId = [] := by
    simp only [Db.pendingPrepared, List.filter_eq_nil_iff, Bool.not_eq_true', Bool.not_eq_false,
      List.any_eq_true, beq_iff_eq]
    exact h.accepted
  simp only [Db.drained, hpending, List.isEmpty_nil, Bool.true_and, Db.runsTerminal,
    List.all_eq_true]
  exact h.ended

theorem MayResume.notCooling {now utc : Instant} {work : Work} (h : MayResume cfg now utc s work) :
    s.owner.cooling now = false := by
  cases hfloor : s.owner.acquisitionNotBefore with
  | none => simp [Owner.cooling, hfloor]
  | some t => simpa [Owner.cooling, hfloor] using h.warm t hfloor

/-- The flag of such a round: a maintenance work keeps what it was queued with. -/
theorem MayResume.drainOnly {now utc : Instant} {work : Work} {attempt : Attempt}
    (h : MayResume cfg now utc s { work with state := .running }) :
    claimDrainOnly cfg now utc s work attempt = false ↔
      work.kind ≠ .maintenance ∨ attempt.drainOnly = false := by
  have hgate := h.gate
  have hdrained : s.drained work.workId = true := h.drained
  have hcooling : coolingFor s.owner work now = false := by simp [coolingFor, h.notCooling]
  unfold claimDrainOnly
  simp only [hgate, hdrained, hcooling, Bool.and_true, Bool.not_true, Bool.or_false]
  rcases h.kind with hk | hk | hk <;> cases hd : attempt.drainOnly <;> simp_all

/-- **When a drain-only round ends.** A fresh claim of a work that nothing holds back
hands out a round that may acquire exactly when the work is no maintenance work or
its round was not queued as drain-only. -/
theorem claim_clears_drainOnly_iff {now utc : Instant} {token : Uuid} {r : ClaimRequest}
    {c : Claimed} (hr : Reachable cfg s) (idle : s.owner.attemptId = none)
    (h : claim cfg now utc token r s = .ok (t, some c))
    (hm : MayResume cfg now utc (reconcileCancelledQueue cfg now utc s) c.work) :
    c.attempt.drainOnly = false ↔ c.work.kind ≠ .maintenance ∨
      ∃ a ∈ s.attempts, a.attemptId = c.attempt.attemptId ∧ a.drainOnly = false := by
  obtain ⟨work, attempt, hcand, hwork, hid, hdrain⟩ := claim_fresh idle h
  obtain ⟨hmem, hwmem, hof, _⟩ := candidates_spec hcand
  rw [hwork] at hm
  have hkind : c.work.kind = work.kind := by rw [hwork]
  rw [hdrain, hkind, hm.drainOnly]
  refine or_congr_right' fun hk => ?_
  -- the reconciliation before the selection only writes historical works
  have hk : work.kind = .maintenance := by simpa using hk
  have hrow : attempt ∈ s.attempts := by
    have hnot : ∀ i, work.stableKey ≠ .historical i := by
      intro i hkey
      have hrows := (hr.step (.reconcileCancelledQueue now utc)).rows work hwmem
      rw [hrows.1 i hkey] at hk
      cases hk
    exact ((cancels_sparesOthers.reconcile s work hwmem hnot).2 attempt hof).mp hmem
  constructor
  · exact fun hd => ⟨attempt, hrow, hid.symm, hd⟩
  · rintro ⟨a, ha, haid, hd⟩
    rw [Table.eq_of_key hrow ha (hid.symm.trans haid.symm)]
    exact hd

/-- A maintenance round queued normally. -/
theorem claim_clears_drainOnly_maintenance :
    ∃ t c, claim (utcConfig .twelveData) 5 5 7 (hostClaim false)
        (ranTwelveData [enqueueMaintenance]) = .ok (t, some c) ∧ c.work.kind = .maintenance ∧
      c.attempt.drainOnly = false := by
  have hrun : ∃ t c, claim (utcConfig .twelveData) 5 5 7 (hostClaim false)
        (ranTwelveData [enqueueMaintenance]) = .ok (t, some c) ∧ c.work.kind = .maintenance ∧
      MayResume (utcConfig .twelveData) 5 5 (reconcileCancelledQueue (utcConfig .twelveData) 5 5
        (ranTwelveData [enqueueMaintenance])) c.work ∧
      ∃ a ∈ (ranTwelveData [enqueueMaintenance]).attempts,
        a.attemptId = c.attempt.attemptId ∧ a.drainOnly = false :=
    ⟨_, _, rfl, rfl, ⟨Or.inr (Or.inr rfl), rfl, (by intro _ h; cases h), (by intro _ h; cases h),
      (by intro _ h; cases h)⟩, _, List.mem_singleton.mpr rfl, rfl, rfl⟩
  obtain ⟨t, c, hclaim, hkind, hm, hqueued⟩ := hrun
  exact ⟨t, c, hclaim, hkind,
    (claim_clears_drainOnly_iff (reachable_runAll _ _) rfl hclaim hm).mpr (Or.inr hqueued)⟩

/-- The same work after its round was recovered during a cooldown, closed and settled
as a retry: the cooldown is over, nothing is retained, and the round is drain-only. -/
theorem recovered_maintenance_stays_drainOnly :
    let s := ranTwelveData [enqueueMaintenance, .claim 5 5 7 (hostClaim false),
      .mutate 6 ["us_equity_eod"] ⟨1, 1, 7⟩ (.heartbeat (some ⟨10 * minute, true⟩)),
      .claim (3 * minute) (3 * minute) 8 (hostClaim true),
      .mutate (3 * minute) ["us_equity_eod"] ⟨1, 2, 8⟩ .close,
      .mutate (3 * minute) ["us_equity_eod"] ⟨1, 2, 8⟩
        (.settle ⟨.retry, Proof.empty, some ⟨11 * minute, true⟩, none⟩ 3)]
    Reachable (utcConfig .twelveData) s ∧ s.owner.attemptId = none ∧
    ∃ t c, claim (utcConfig .twelveData) (12 * minute) (12 * minute) 9 (hostClaim false) s =
        .ok (t, some c) ∧
      MayResume (utcConfig .twelveData) (12 * minute) (12 * minute)
        (reconcileCancelledQueue (utcConfig .twelveData) (12 * minute) (12 * minute) s) c.work ∧
      c.attempt.drainOnly = true := by
  intro s
  refine ⟨reachable_runAll _ _, by decide, _, _, rfl,
    ⟨Or.inr (Or.inr rfl), rfl, ?_, (by intro _ h; cases h), (by intro _ h; cases h)⟩, rfl⟩
  intro t ht
  cases ht
  decide

end FinDB.ProviderWork
