import FinDB.ProviderWork.Aggregate

/-! # Calls beside the historical requests

The fenced calls, the claims and the operator calls write neither a request nor
an item, and none of them adds a historical work. -/
namespace FinDB.ProviderWork
open FinDB.Lib

variable {cfg : Config} {s t u : Db}

/-- No work of `t` is a new historical one. -/
def WorksFrom (s t : Db) : Prop :=
  ∀ w' ∈ t.works, (∃ w ∈ s.works, w.workId = w'.workId) ∨ ∀ i, w'.stableKey ≠ .historical i

theorem WorksFrom.of_eq (h : t.works = s.works) : WorksFrom s t :=
  fun w hw => Or.inl ⟨w, h ▸ hw, rfl⟩

theorem WorksFrom.trans (h : WorksFrom s t) (h' : WorksFrom t u)
    (hk : KeepsWorks t u) : WorksFrom s u := by
  intro w'' hw''
  rcases h' w'' hw'' with ⟨w', hw', hid⟩ | hne
  · rcases h w' hw' with ⟨w, hw, hid'⟩ | hne
    · exact Or.inl ⟨w, hw, hid'.trans hid⟩
    · refine Or.inr fun i hi => hne i ?_
      rw [← (hk.row hw' hw'' hid.symm).stableKey]
      exact hi
  · exact Or.inr hne

/-- The call writes nothing of the historical domain. -/
structure Beside (s t : Db) : Prop where
  same : SameRequests s t
  works : WorksFrom s t

theorem Beside.of_works (hrequests : t.requests = s.requests) (hitems : t.items = s.items)
    (hworks : t.works = s.works) : Beside s t := ⟨⟨hrequests, hitems⟩, .of_eq hworks⟩

theorem Beside.refl (s : Db) : Beside s s := .of_works rfl rfl rfl

/-- One work row is rewritten. -/
theorem Beside.modify {workId : Uuid} {f : Work → Work} (hf : ∀ w, (f w).workId = w.workId)
    (hrequests : t.requests = s.requests) (hitems : t.items = s.items)
    (hworks : t.works = s.works.modify workId f hf) : Beside s t := by
  refine ⟨⟨hrequests, hitems⟩, fun w' hw' => ?_⟩
  rw [hworks] at hw'
  rcases Table.mem_modify.mp hw' with ⟨hw, _⟩ | ⟨w, hw, _, rfl⟩
  · exact Or.inl ⟨w', hw, rfl⟩
  · exact Or.inl ⟨w, hw, (hf w).symm⟩

/-! ## Enqueues -/

theorem enqueue_beside {utc : Instant} {ids : Uuid × Uuid} {r : EnqueueRequest} {w : Work}
    (hkey : (s.workByKey r.stableKey).isSome = true ∨ ∀ i, r.stableKey ≠ .historical i)
    (h : enqueue utc ids r s = .ok (t, w)) : Beside s t := by
  refine ⟨enqueue_sameRequests h, ?_⟩
  unfold enqueue at h
  obtain ⟨_, _, h⟩ := ok_bind h
  split at h
  · obtain ⟨_, _, h⟩ := ok_bind h
    cases ok_pure h
    exact .of_eq rfl
  · rename_i hnone
    obtain ⟨works, hw, h⟩ := ok_bind h
    obtain ⟨s', ha, h⟩ := ok_bind h
    cases ok_pure h
    obtain ⟨_, _, _, _, _, rfl⟩ := addAttempt_ok ha
    intro w' hw'
    rcases (Table.mem_insert? (need_ok.mp hw)).mp hw' with hold | rfl
    · exact Or.inl ⟨w', hold, rfl⟩
    · rcases hkey with hsome | hne
      · rw [hnone] at hsome
        cases hsome
      · exact Or.inr hne

theorem enqueueEndpoint_beside {utc : Instant} {ids : Uuid × Uuid} {datasets : List DatasetKey}
    {r : EnqueueRequest} (h : enqueueEndpoint cfg utc ids datasets r s = .ok t) : Beside s t := by
  unfold enqueueEndpoint at h
  obtain ⟨_, _, h⟩ := ok_bind h
  obtain ⟨_, _, h⟩ := ok_bind h
  obtain ⟨_, hrerun, h⟩ := ok_bind h
  obtain ⟨_, hid, h⟩ := ok_bind h
  obtain ⟨_, hhist, h⟩ := ok_bind h
  obtain ⟨r', hready, h⟩ := ok_bind h
  obtain ⟨⟨s', w⟩, henq, h⟩ := ok_bind h
  cases ok_pure h
  have hrerun : r.kind ≠ .rerun := by simpa using ensure_ok.mp hrerun
  have hkey : r'.stableKey = r.stableKey := by
    unfold readyRequest at hready
    split at hready
    · exact (dailyReadiness_same hready).1
    · cases hready
      rfl
  refine enqueue_beside ?_ henq
  rw [hkey]
  by_cases hk : r.kind = .historical
  · have hfound := ensure_ok.mp hhist
    simp only [hk, bne_self_eq_false, Bool.false_or, Option.any_eq_true] at hfound
    obtain ⟨w, hw, _⟩ := hfound
    exact Or.inl (by rw [hw]; rfl)
  · exact Or.inr (identityChecked_key (ensure_ok.mp hid) hk hrerun)

theorem rerunFromRaw_beside {utc : Instant} {ids : Uuid × Uuid} {r : Rerun}
    (h : rerunFromRaw cfg utc ids r s = .ok t) : Beside s t := by
  unfold rerunFromRaw at h
  obtain ⟨_, _, h⟩ := ok_bind h
  obtain ⟨_, _, h⟩ := ok_bind h
  obtain ⟨_, _, h⟩ := ok_bind h
  obtain ⟨_, _, h⟩ := ok_bind h
  obtain ⟨⟨s', work⟩, henq, h⟩ := ok_bind h
  obtain ⟨receipts, _, h⟩ := ok_bind h
  cases ok_pure h
  obtain ⟨same, works⟩ := enqueue_beside (Or.inr fun i hi => by cases hi) henq
  refine ⟨⟨same.requests, same.items⟩, fun w' hw' => ?_⟩
  rcases (Db.mem_setWork (by intro _; rfl)).mp hw' with ⟨hw, _⟩ | ⟨w, hw, _, rfl⟩
  · exact works w' hw
  · exact works w hw

/-! ## The fenced calls -/

theorem settle_beside {utc : Instant} {newId : Uuid} {identity : FenceIdentity}
    {validated : Option Uuid} {r : Settlement}
    (h : Leaves (settle cfg utc newId identity validated r s) t) : Beside s t := by
  rcases leaves_cases h with h | ⟨e, h⟩
  · obtain ⟨work, attempt, _, ⟨_, hretry⟩ | ⟨_, rfl⟩⟩ := settle_ok h
    · unfold settleRetry at hretry
      obtain ⟨_, _, hretry⟩ := ok_bind hretry
      obtain ⟨s', ha, hretry⟩ := ok_bind hretry
      cases ok_pure hretry
      obtain ⟨_, _, _, _, _, rfl⟩ := addAttempt_ok ha
      exact .modify (by intro _; rfl) rfl rfl rfl
    · exact .modify (by intro _; rfl) rfl rfl rfl
  · obtain ⟨work, attempt, _, _, rfl⟩ := settle_kept h
    exact .of_works rfl rfl rfl

theorem freezeManifest_beside {utc : Instant} {identity : FenceIdentity} {manifest : Option Manifest}
    (h : freezeManifest cfg utc identity manifest s = .ok t) : Beside s t := by
  unfold freezeManifest at h
  obtain ⟨⟨work, attempt⟩, _, h⟩ := ok_bind h
  simp only at h
  split at h
  · cases ok_pure h
    exact .of_works rfl rfl rfl
  · unfold freezeNew at h
    obtain ⟨_, _, h⟩ := ok_bind h
    obtain ⟨_, _, h⟩ := ok_bind h
    obtain ⟨_, _, h⟩ := ok_bind h
    obtain ⟨m, _, h⟩ := ok_bind h
    obtain ⟨_, _, h⟩ := ok_bind h
    obtain ⟨_, _, h⟩ := ok_bind h
    obtain ⟨_, _, h⟩ := ok_bind h
    cases ok_pure h
    exact .modify (by intro _; rfl) rfl rfl rfl

theorem registerPrepared_beside {utc : Instant} {identity : FenceIdentity} {body : String}
    {stage : Stage} {jobKey : Option String}
    (h : registerPrepared cfg utc identity body stage jobKey s = .ok t) : Beside s t := by
  unfold registerPrepared at h
  obtain ⟨⟨work, attempt⟩, _, h⟩ := ok_bind h
  obtain ⟨request, _, h⟩ := ok_bind h
  obtain ⟨_, _, h⟩ := ok_bind h
  cases hd : s.descriptor work.workId request.idempotencyKey with
  | some previous =>
    simp only [hd] at h
    obtain ⟨_, _, h⟩ := ok_bind h
    cases ok_pure h
    split
    · exact .of_works rfl rfl rfl
    · exact .refl s
  | none =>
    simp only [hd] at h
    obtain ⟨p, prepared, _, _, _, _, _, rfl⟩ := storePrepared_ok h
    exact .of_works rfl rfl rfl

theorem run_beside {utc : Instant} {identity : FenceIdentity} {action : Action}
    (h : Leaves (action.run cfg utc identity s) t) : Beside s t := by
  cases action with
  | heartbeat floor =>
    obtain ⟨t', h', hl⟩ := leaves_plain h
    unfold heartbeat at h'
    obtain ⟨_, _, h'⟩ := ok_bind h'
    obtain ⟨_, _, h'⟩ := ok_bind h'
    cases ok_pure h'
    exact hl ▸ .of_works rfl rfl rfl
  | manifest m =>
    obtain ⟨t', h', hl⟩ := leaves_plain h
    exact hl ▸ freezeManifest_beside h'
  | prepare body stage jobKey =>
    obtain ⟨t', h', hl⟩ := leaves_plain h
    exact hl ▸ registerPrepared_beside h'
  | close =>
    obtain ⟨t', h', hl⟩ := leaves_plain h
    obtain ⟨hworks, hitems, hrequests⟩ := close_frame h'
    exact hl ▸ .of_works hrequests hitems hworks
  | settle r newId => exact settle_beside h

theorem mutate_beside {utc : Instant} {datasets : List DatasetKey} {identity : FenceIdentity}
    {action : Action} (h : Leaves (mutateDb cfg utc datasets identity action s) t) :
    Beside s t := by
  rcases mutate_leaves h with rfl | ⟨_, _, hrun⟩
  · exact .refl t
  · exact run_beside hrun

theorem ingest_beside {utc : Instant} {d : DeliveryIdentity} {datasetKey : DatasetKey}
    {tradeDate : Option Date} {runId : Uuid} {sha : String} {members : Option (List MemberKey)}
    {replay : Bool} (h : ingest cfg utc d datasetKey tradeDate runId sha members replay s = .ok t) :
    Beside s t := by
  unfold ingest at h
  obtain ⟨work, _, h⟩ := ok_bind h
  split at h
  · unfold replayReceipt at h
    obtain ⟨_, _, h⟩ := ok_bind h
    cases ok_pure h
    exact .of_works rfl rfl rfl
  · unfold associateReceipt at h
    obtain ⟨⟨owned, attempt⟩, _, h⟩ := ok_bind h
    obtain ⟨_, _, h⟩ := ok_bind h
    obtain ⟨_, _, h⟩ := ok_bind h
    obtain ⟨_, _, h⟩ := ok_bind h
    obtain ⟨receipts, _, h⟩ := ok_bind h
    cases ok_pure h
    exact .of_works rfl rfl rfl

/-! ## Operator calls -/

theorem repairApply_beside {utc : Instant} {newId : Uuid} {repairIds : Nat → Uuid} {r : RepairApply}
    (h : repairApply cfg utc newId repairIds r s = .ok t) : Beside s t := by
  unfold repairApply at h
  obtain ⟨⟨work, planId, plan⟩, _, h⟩ := ok_bind h
  simp only at h
  split at h
  · unfold repairNew at h
    obtain ⟨_, _, h⟩ := ok_bind h
    obtain ⟨_, _, h⟩ := ok_bind h
    obtain ⟨_, _, h⟩ := ok_bind h
    obtain ⟨_, _, h⟩ := ok_bind h
    obtain ⟨s', hrows, h⟩ := ok_bind h
    obtain ⟨repairs, rfl⟩ := addRepairs_ok hrows
    unfold reopenEnded at h
    split at h
    · unfold reopen at h
      obtain ⟨s', ha, h⟩ := ok_bind h
      cases ok_pure h
      obtain ⟨_, _, _, _, _, rfl⟩ := addAttempt_ok ha
      exact .modify (by intro _; rfl) rfl rfl rfl
    · cases h
      exact .of_works rfl rfl rfl
  · obtain ⟨_, _, h⟩ := ok_bind h
    cases ok_pure h
    exact .of_works rfl rfl rfl

theorem calendarClosureApply_beside {utc : Instant} {r : ClosureApply}
    (h : calendarClosureApply cfg utc r s = .ok t) : Beside s t := by
  unfold calendarClosureApply at h
  split at h
  · obtain ⟨_, _, h⟩ := ok_bind h
    cases ok_pure h
    exact .of_works rfl rfl rfl
  · obtain ⟨_, _, h⟩ := ok_bind h
    obtain ⟨_, _, h⟩ := ok_bind h
    obtain ⟨_, _, h⟩ := ok_bind h
    obtain ⟨_, _, h⟩ := ok_bind h
    obtain ⟨_, _, h⟩ := ok_bind h
    obtain ⟨_, _, h⟩ := ok_bind h
    cases ok_pure h
    exact .modify (by intro _; rfl) rfl rfl rfl

theorem attest_beside {host : String} (h : attest host s = .ok t) : Beside s t := by
  unfold attest at h
  obtain ⟨_, _, h⟩ := ok_bind h
  cases ok_pure h
  exact .of_works rfl rfl rfl

/-- A claim expires and reconciles first; what it then hands out is beside. -/
theorem claimDb_beside {now utc : Instant} {token : Uuid} {r : ClaimRequest}
    (h : claimDb cfg now utc token r s = .ok t) :
    Beside s t ∨ Beside (reconcileCancelledQueue cfg now utc s) t := by
  unfold claimDb at h
  cases hc : claim cfg now utc token r s with
  | error e =>
    rw [hc] at h
    cases h
  | ok x =>
    rw [hc] at h
    cases h
    unfold claim at hc
    obtain ⟨_, _, hc⟩ := ok_bind hc
    obtain ⟨_, _, hc⟩ := ok_bind hc
    obtain ⟨_, _, hc⟩ := ok_bind hc
    cases ho : s.owner.attemptId with
    | none =>
      simp only [ho] at hc
      rw [ok_pure hc]
      unfold claimFresh
      simp only
      split
      · exact Or.inr (.refl _)
      · split
        · exact Or.inr (.refl _)
        · exact Or.inr (.modify (by intro _; rfl) rfl rfl rfl)
    | some k =>
      simp only [ho] at hc
      obtain ⟨attempt, _, hc⟩ := ok_bind hc
      obtain ⟨work, _, hc⟩ := ok_bind hc
      unfold claimOwned at hc
      split at hc
      · cases hc
        exact Or.inl (.refl _)
      · split at hc
        · cases hc
          simp only
          split
          · exact Or.inl (.modify (by intro _; rfl) rfl rfl rfl)
          · exact Or.inl (.refl _)
        · obtain ⟨_, _, hc⟩ := ok_bind hc
          cases ok_pure hc
          exact Or.inl (.modify (by intro _; rfl) rfl rfl rfl)

end FinDB.ProviderWork
