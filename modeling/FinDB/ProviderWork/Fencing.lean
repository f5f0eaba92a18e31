import FinDB.ProviderWork.Moves
import FinDB.ProviderWork.Owner

/-! # Fencing

A claim rotates the identity of the provider: the generation grows by one and no
other operation moves it. A call with an identity that was rotated away, or whose
round is settled, finds the fence closed; the only calls that bypass the fence
are the replays of `close` and `settle`, and they read. An owner that missed its
heartbeat is out until its own host recovers it. -/
namespace FinDB.ProviderWork
open FinDB.Lib Relation

variable {cfg : Config} {mode : Mode} {s t : Db}

/-! ## Generations -/

/-- Generations are handed out once: no round has a later one than the slot, and
while a round is owned no other has the current one. -/
structure Generations (s : Db) : Prop where
  le : ∀ a ∈ s.attempts, ∀ g, a.generation = some g → g ≤ s.owner.generation
  current : ∀ a ∈ s.attempts, a.generation = some s.owner.generation →
    ∀ k, s.owner.attemptId = some k → a.attemptId = k

/-- A moved round has its old generation, or the one the slot rotated to. -/
theorem Moved.generation {a a' : Attempt} (h : Moved s t a a') :
    a'.generation = a.generation ∨
      (a'.generation = some t.owner.generation ∧ t.owner.generation = s.owner.generation + 1 ∧
        t.owner.attemptId = some a.attemptId) := by
  cases h with
  | handed _ _ _ _ rotated owned | resumed _ _ _ _ rotated owned =>
    exact Or.inr ⟨by rw [rotated]; rfl, rotated, owned⟩
  | _ => exact Or.inl rfl

theorem trans_generations (ht : Trans cfg mode s t) (h : Generations s) : Generations t := by
  have hle : s.owner.generation ≤ t.owner.generation := by
    rcases trans_owner ht with ⟨hg, _⟩ | hg <;> omega
  refine ⟨fun a' ha' g hg => ?_, fun a' ha' hg k hk => ?_⟩
  · rcases trans_attempts ht ha' with hadded | ⟨a, ha, hmove⟩
    · rw [hadded.noGeneration] at hg
      cases hg
    · rcases hmove.generation with hsame | ⟨hnew, _, _⟩
      · exact (h.le a ha g (hsame ▸ hg)).trans hle
      · rw [hnew] at hg
        exact (Option.some.inj hg).symm.le
  · rcases trans_attempts ht ha' with hadded | ⟨a, ha, hmove⟩
    · rw [hadded.noGeneration] at hg
      cases hg
    · rw [hmove.attemptId]
      rcases hmove.generation with hsame | ⟨_, _, howned⟩
      · have hold := h.le a ha _ (hsame ▸ hg)
        rcases trans_owner ht with ⟨hgen, hown⟩ | hgen
        · refine h.current a ha (hgen ▸ hsame ▸ hg) k ?_
          rcases hown with hown | hown
          · rw [← hown, hk]
          · rw [hown] at hk
            cases hk
        · omega
      · rw [howned] at hk
        exact Option.some.inj hk

theorem Reachable.generations (h : Reachable cfg s) : Generations s := by
  refine h.transInv (fun registry => ⟨?_, ?_⟩) (fun s t henv hs => ⟨?_, ?_⟩)
    fun _ _ => trans_generations
  · exact fun a ha => absurd ha (Table.not_mem_empty a)
  · exact fun a ha => absurd ha (Table.not_mem_empty a)
  · rw [henv.attempts, henv.owner]; exact hs.le
  · rw [henv.attempts, henv.owner]; exact hs.current

/-- How the slot moves along a run: within one generation it can only be freed. -/
def Rotates (s t : Db) : Prop :=
  s.owner.generation ≤ t.owner.generation ∧
  (t.owner.generation = s.owner.generation →
    t.owner.attemptId = s.owner.attemptId ∨ t.owner.attemptId = none)

theorem Rotates.trans {u : Db} (h : Rotates s t) (h' : Rotates t u) : Rotates s u := by
  refine ⟨h.1.trans h'.1, fun hg => ?_⟩
  have hst := h.1
  have htu := h'.1
  rcases h'.2 (by omega) with hk | hk
  · rw [hk]
    exact h.2 (by omega)
  · exact Or.inr hk

theorem trans_rotates (ht : Trans cfg mode s t) : Rotates s t := by
  rcases trans_owner ht with ⟨hg, hk⟩ | hg
  · exact ⟨hg.symm.le, fun _ => hk⟩
  · exact ⟨by omega, fun _ => by omega⟩

theorem Steps.rotates (h : Steps cfg s t) (hr : Reachable cfg s) : Rotates s t := by
  refine h.transRel (I := fun _ => True) (fun s => ⟨le_refl _, fun _ => Or.inl rfl⟩)
    (fun _ _ _ => Rotates.trans) (fun _ _ _ _ => trivial) (fun _ _ _ _ => trivial)
    (fun s t henv => ?_) (fun s t ht _ => trans_rotates ht) hr.requestsEnded trivial
  rw [Rotates, henv.owner]
  exact ⟨le_refl _, fun _ => Or.inl rfl⟩

/-! ## Claims -/

/-- A claim in `s` that answers with `c` and leaves `t`. -/
def Claims (cfg : Config) (s : Db) (c : Claimed) (t : Db) : Prop :=
  ∃ now utc token r, claim cfg now utc token r s = .ok (t, some c)

/-- The identity a claim hands out; the caller names the work. -/
def Claimed.issued (c : Claimed) (identity : FenceIdentity) : Prop :=
  identity.generation = c.owner.generation ∧ c.owner.token = some identity.token

theorem claimOwned_claimed {now : Instant} {token : Uuid} {r : ClaimRequest} {work : Work}
    {attempt : Attempt} {c : Claimed}
    (h : claimOwned now token r work attempt s = .ok (t, some c)) :
    t.owner = c.owner ∧ c.owner.generation = s.owner.generation + 1 ∧
      c.owner.attemptId = some c.attempt.attemptId := by
  unfold claimOwned at h
  split at h
  · cases h
  · split at h
    · cases h
    · obtain ⟨_, _, h⟩ := ok_bind h
      cases ok_pure h
      exact ⟨rfl, rfl, rfl⟩

theorem claimFresh_claimed {now utc : Instant} {token : Uuid} {r : ClaimRequest} {c : Claimed}
    (h : (claimFresh cfg now utc token r s).2 = some c) :
    (claimFresh cfg now utc token r s).1.owner = c.owner ∧
      c.owner.generation = s.owner.generation + 1 ∧
      c.owner.attemptId = some c.attempt.attemptId := by
  have howner : (reconcileCancelledQueue cfg now utc s).owner = s.owner :=
    cancels_owner.reconcile s
  revert h howner
  unfold claimFresh
  generalize reconcileCancelledQueue cfg now utc s = s₁
  intro h howner
  simp only at h ⊢
  split at h
  · cases h
  · split at h
    · cases h
    · rename_i hadmits
      cases h
      simp only [hadmits]
      exact ⟨rfl, congrArg (·.generation + 1) howner, rfl⟩

/-- A claim that answers rotates the identity and owns the round it answers with. -/
theorem Claims.rotates {c : Claimed} (h : Claims cfg s c t) :
    t.owner = c.owner ∧ c.owner.generation = s.owner.generation + 1 ∧
      c.owner.attemptId = some c.attempt.attemptId := by
  obtain ⟨now, utc, token, r, h⟩ := h
  unfold claim at h
  obtain ⟨_, _, h⟩ := ok_bind h
  obtain ⟨_, _, h⟩ := ok_bind h
  obtain ⟨_, _, h⟩ := ok_bind h
  cases ho : s.owner.attemptId with
  | none =>
    simp only [ho] at h
    have hp := ok_pure h
    have hc := claimFresh_claimed (congrArg Prod.snd hp).symm
    rw [← hp] at hc
    exact hc
  | some k =>
    simp only [ho] at h
    obtain ⟨_, _, h⟩ := ok_bind h
    obtain ⟨_, _, h⟩ := ok_bind h
    exact claimOwned_claimed h

theorem Claims.steps {c : Claimed} (h : Claims cfg s c t) : Steps cfg s t := by
  obtain ⟨now, utc, token, r, h⟩ := h
  have happly : apply cfg (.claim now utc token r) s = t := by
    simp only [apply, claimDb, h]
    rfl
  exact happly ▸ (StepsIf.refl s).tail trivial

/-! ## A closed fence -/

/-- The call raised and its endpoint rolled back. -/
def Refused {α : Type} (x : Except (Raised Err Db) α) : Prop := ∃ e, x = .error ⟨e, none⟩

/-- The call repeats what the settled round of this identity recorded. -/
structure Replays (s : Db) (identity : FenceIdentity) (action : Action) (work : Work)
    (previous : Attempt) : Prop where
  call : action = .close ∨ ∃ r newId, action = .settle r newId
  workMem : work ∈ s.works
  workId : work.workId = identity.workId
  mem : previous ∈ s.attempts
  ofWork : previous.workId = identity.workId
  generation : previous.generation = some identity.generation
  token : previous.token = some identity.token
  settled : previous.state = .settled
  recorded : action.replays work previous = true

/-- No row changes through a call with this identity: it raises, or it replays. -/
structure ShutOut (cfg : Config) (s : Db) (identity : FenceIdentity) : Prop where
  mutate : ∀ utc datasets action, Refused (mutate cfg utc datasets identity action s) ∨
    ∃ work previous, Replays s identity action work previous ∧
      mutate cfg utc datasets identity action s = .ok (s, work.state)
  ingest : ∀ utc (d : DeliveryIdentity) datasetKey tradeDate runId sha members,
    d.fence.generation = identity.generation → d.fence.token = identity.token →
    ∃ e, ingest cfg utc d datasetKey tradeDate runId sha members false s = .error e

theorem previous_spec {datasets : List DatasetKey} {identity : FenceIdentity} {action : Action}
    {previous : Attempt} (h : action.previous datasets identity s = some previous) :
    (action = .close ∨ ∃ r newId, action = .settle r newId) ∧ previous ∈ s.attempts ∧
      previous.workId = identity.workId ∧ previous.generation = some identity.generation ∧
      previous.token = some identity.token ∧ previous.state = .settled := by
  have hcall : action = .close ∨ ∃ r newId, action = .settle r newId := by
    cases action with
    | close => exact Or.inl rfl
    | settle r newId => exact Or.inr ⟨r, newId, rfl⟩
    | heartbeat | manifest | prepare => cases h
  have hfind : s.attempts.rows.find? (fun a =>
      a.workId == identity.workId && a.generation == some identity.generation &&
      a.token == some identity.token && a.state == .settled &&
      (s.works.find? a.workId).any fun w => datasets.contains w.datasetKey) = some previous := by
    rcases hcall with rfl | ⟨r, newId, rfl⟩ <;> exact h
  have hp := List.find?_some hfind
  simp only [Bool.and_eq_true, beq_iff_eq] at hp
  exact ⟨hcall, List.mem_of_find?_eq_some hfind, hp.1.1.1.1, hp.1.1.1.2, hp.1.1.2, hp.1.2⟩

/-- Behind a closed fence the endpoint refuses or replays. -/
theorem mutate_closed {utc : Instant} {datasets : List DatasetKey} {identity : FenceIdentity}
    {action : Action} {e : Err} (hfence : fence cfg utc identity false s = .error e) :
    Refused (mutate cfg utc datasets identity action s) ∨
      ∃ work previous, Replays s identity action work previous ∧
        mutate cfg utc datasets identity action s = .ok (s, work.state) := by
  unfold mutate
  cases hscope : sourceScope cfg datasets with
  | error e => exact Or.inl ⟨e, rfl⟩
  | ok =>
    cases hp : action.previous datasets identity s with
    | none =>
      left
      exact ⟨e, by rw [hfence]; rfl⟩
    | some previous =>
      cases hw : s.works.find? identity.workId with
      | none => exact Or.inl ⟨_, rfl⟩
      | some work =>
        obtain ⟨hmem, hid⟩ := Table.find?_eq_some.mp hw
        obtain ⟨hcall, hprev, hof, hgen, htok, hset⟩ := previous_spec hp
        cases hr : action.replays work previous with
        | false =>
          refine Or.inl ⟨.work "settlement replay differs from durable round proof"
            "PROVIDER_WORK_REPLAY_MISMATCH", ?_⟩
          change plain (ensure (action.replays work previous) _) >>= _ = _
          rw [hr]
          rfl
        | true =>
          refine Or.inr ⟨work, previous, ⟨hcall, hmem, hid, hprev, hof, hgen, htok, hset, hr⟩, ?_⟩
          change plain (ensure (action.replays work previous) _) >>= _ = _
          rw [hr]
          rfl

theorem ingest_closed {utc : Instant} {d : DeliveryIdentity} {datasetKey : DatasetKey}
    {tradeDate : Option Date} {runId : Uuid} {sha : String} {members : Option (List MemberKey)}
    (hfence : ∀ workId, ∃ e, fence cfg utc { d.fence with workId } false s = .error e) :
    ∃ e, ingest cfg utc d datasetKey tradeDate runId sha members false s = .error e := by
  cases h : ingest cfg utc d datasetKey tradeDate runId sha members false s with
  | error e => exact ⟨e, rfl⟩
  | ok t =>
    unfold ingest at h
    obtain ⟨work, _, h⟩ := ok_bind h
    simp only [Bool.false_eq_true, if_false] at h
    unfold associateReceipt at h
    obtain ⟨_, hf, _⟩ := ok_bind h
    obtain ⟨e, he⟩ := hfence work.workId
    rw [he] at hf
    cases hf

/-- An identity that no longer fits the slot is shut out. -/
theorem shutOut_of_stale {identity : FenceIdentity}
    (h : s.owner.generation ≠ identity.generation ∨ s.owner.attemptId = none) :
    ShutOut cfg s identity := by
  have hclosed : ∀ utc (i : FenceIdentity), i.generation = identity.generation →
      ∃ e, fence cfg utc i false s = .error e := by
    intro utc i hi
    cases hf : fence cfg utc i false s with
    | error e => exact ⟨e, rfl⟩
    | ok x =>
      obtain ⟨work, attempt⟩ := x
      have hfenced := fence_fenced hf
      rcases h with hg | hn
      · exact absurd (hfenced.generation.trans hi) hg
      · rw [hfenced.owned] at hn
        cases hn
  refine ⟨fun utc datasets action => ?_, fun utc d datasetKey tradeDate runId sha members hg _ => ?_⟩
  · obtain ⟨e, he⟩ := hclosed utc identity rfl
    exact mutate_closed he
  · exact ingest_closed fun workId => hclosed utc { d.fence with workId } hg

/-- A later claim of the run rotated the identity of `c` away, or its round is settled. -/
def Superseded (cfg : Config) (s : Db) (c : Claimed) (t : Db) : Prop :=
  (∃ u c' v, Steps cfg s u ∧ Claims cfg u c' v ∧ Steps cfg v t) ∨
  ∃ a ∈ t.attempts, a.attemptId = c.attempt.attemptId ∧ a.state = .settled

theorem Claims.shutOut {c : Claimed} {u : Db} {identity : FenceIdentity} (hr : Reachable cfg s)
    (h : Claims cfg s c t) (hrun : Steps cfg t u) (hissued : c.issued identity)
    (hgone : Superseded cfg t c u) : ShutOut cfg u identity := by
  obtain ⟨howner, hgen, hown⟩ := h.rotates
  have ht := hr.steps h.steps
  rcases hgone with ⟨v, c', v', hv, hc', hu⟩ | ⟨a, ha, hid, hset⟩
  · -- every later claim left a greater generation behind
    have h1 := (hv.rotates ht).1
    have h2 := hc'.rotates
    have h3 := (hu.rotates ((ht.steps hv).steps hc'.steps)).1
    refine shutOut_of_stale (Or.inl ?_)
    rw [hissued.1]
    rw [howner] at h1
    rw [h2.1, h2.2.1] at h3
    omega
  · by_cases hg : u.owner.generation = identity.generation
    · refine shutOut_of_stale (Or.inr ?_)
      have hsame : u.owner.generation = t.owner.generation := by rw [hg, hissued.1, howner]
      rcases (hrun.rotates ht).2 hsame with hk | hk
      · -- the slot would still hold the settled round
        have hactive := ((ht.steps hrun).shape.active ha).mpr (by rw [hk, howner, hown, hid])
        rw [hset] at hactive
        cases hactive
      · exact hk
    · exact shutOut_of_stale (Or.inl hg)

/-! ## A dead owner

Operations that never ask the fence leave the slot alone, and those that ask it
find it closed. -/

theorem settled_owner {x : Except Err Db} (h : ∀ t, x = .ok t → t.owner = s.owner) :
    (settled s x).owner = s.owner := by
  cases x with
  | error e => rfl
  | ok t => exact h t rfl

theorem enqueue_owner {utc : Instant} {ids : Uuid × Uuid} {r : EnqueueRequest} {w : Work}
    (h : enqueue utc ids r s = .ok (t, w)) : t.owner = s.owner := by
  unfold enqueue at h
  obtain ⟨_, _, h⟩ := ok_bind h
  split at h
  · obtain ⟨_, _, h⟩ := ok_bind h
    cases ok_pure h
    rfl
  · obtain ⟨works, _, h⟩ := ok_bind h
    obtain ⟨s', ha, h⟩ := ok_bind h
    cases ok_pure h
    obtain ⟨_, _, _, _, _, rfl⟩ := addAttempt_ok ha
    rfl

theorem enqueueEndpoint_owner {utc : Instant} {ids : Uuid × Uuid} {datasets : List DatasetKey}
    {r : EnqueueRequest} (h : enqueueEndpoint cfg utc ids datasets r s = .ok t) :
    t.owner = s.owner := by
  unfold enqueueEndpoint at h
  obtain ⟨_, _, h⟩ := ok_bind h
  obtain ⟨_, _, h⟩ := ok_bind h
  obtain ⟨_, _, h⟩ := ok_bind h
  obtain ⟨_, _, h⟩ := ok_bind h
  obtain ⟨_, _, h⟩ := ok_bind h
  obtain ⟨_, _, h⟩ := ok_bind h
  obtain ⟨⟨s', w⟩, henq, h⟩ := ok_bind h
  cases ok_pure h
  exact enqueue_owner henq

theorem foldlM_owner {α : Type} {f : Db → α → Except Err Db}
    (hf : ∀ s x t, f s x = .ok t → t.owner = s.owner) {xs : List α}
    (h : xs.foldlM f s = .ok t) : t.owner = s.owner := by
  induction xs generalizing s with
  | nil => cases ok_pure h; rfl
  | cons x xs ih =>
    rw [List.foldlM_cons] at h
    obtain ⟨s', hone, h⟩ := ok_bind h
    rw [ih h, hf s x s' hone]

theorem enqueueItem_owner {utc : Instant} {datasetKey : DatasetKey} {row : (Uuid × Uuid) × Item}
    (h : enqueueItem cfg utc datasetKey s row = .ok t) : t.owner = s.owner := by
  unfold enqueueItem at h
  split at h
  · obtain ⟨⟨s', w⟩, henq, h⟩ := ok_bind h
    cases ok_pure h
    exact enqueue_owner henq
  · cases h
    rfl

theorem addItem_owner {x : Item} (h : addItem s x = .ok t) : t.owner = s.owner := by
  obtain ⟨items, _, rfl⟩ := addItem_ok h
  rfl

theorem createRequest_owner {utc : Instant} {requestId : Uuid} {ids : Nat → Uuid × Uuid × Uuid}
    {r : CreateRequest} (h : createRequest cfg utc requestId ids r s = .ok t) :
    t.owner = s.owner := by
  unfold createRequest at h
  obtain ⟨_, _, h⟩ := ok_bind h
  obtain ⟨_, _, h⟩ := ok_bind h
  split at h
  · obtain ⟨_, _, h⟩ := ok_bind h
    cases ok_pure h
    rfl
  · obtain ⟨_, _, h⟩ := ok_bind h
    obtain ⟨_, _, h⟩ := ok_bind h
    obtain ⟨_, _, h⟩ := ok_bind h
    obtain ⟨_, _, h⟩ := ok_bind h
    obtain ⟨_, _, h⟩ := ok_bind h
    obtain ⟨requests, _, h⟩ := ok_bind h
    obtain ⟨s', hitems, h⟩ := ok_bind h
    rw [foldlM_owner (fun _ _ _ => enqueueItem_owner) h,
      foldlM_owner (fun _ _ _ => addItem_owner) hitems]

theorem cancelRequest_owner {utc : Instant} {requestId : Uuid} {actor : String}
    (h : cancelRequest utc requestId actor s = .ok t) : t.owner = s.owner := by
  unfold cancelRequest at h
  obtain ⟨_, _, h⟩ := ok_bind h
  obtain ⟨_, _, h⟩ := ok_bind h
  cases ok_pure h
  exact cancels_owner.foldl (fun s x => cancels_owner.cancelItem s x) _ _

theorem repairApply_owner {utc : Instant} {newId : Uuid} {repairIds : Nat → Uuid} {r : RepairApply}
    (h : repairApply cfg utc newId repairIds r s = .ok t) : t.owner = s.owner := by
  unfold repairApply at h
  obtain ⟨⟨work, planId, plan⟩, _, h⟩ := ok_bind h
  simp only at h
  split at h
  · unfold repairNew at h
    obtain ⟨_, _, h⟩ := ok_bind h
    obtain ⟨_, _, h⟩ := ok_bind h
    obtain ⟨_, _, h⟩ := ok_bind h
    obtain ⟨_, _, h⟩ := ok_bind h
    obtain ⟨s', hrows, h⟩ := ok_bind h
    obtain ⟨repairs, rfl⟩ := addRepairs_ok hrows
    unfold reopenEnded at h
    split at h
    · unfold reopen at h
      obtain ⟨s', ha, h⟩ := ok_bind h
      cases ok_pure h
      obtain ⟨_, _, _, _, _, rfl⟩ := addAttempt_ok ha
      rfl
    · cases h
      rfl
  · obtain ⟨_, _, h⟩ := ok_bind h
    cases ok_pure h
    rfl

theorem calendarClosureApply_owner {utc : Instant} {r : ClosureApply}
    (h : calendarClosureApply cfg utc r s = .ok t) : t.owner = s.owner := by
  unfold calendarClosureApply at h
  split at h
  · obtain ⟨_, _, h⟩ := ok_bind h
    cases ok_pure h
    rfl
  · obtain ⟨_, _, h⟩ := ok_bind h
    obtain ⟨_, _, h⟩ := ok_bind h
    obtain ⟨_, _, h⟩ := ok_bind h
    obtain ⟨_, _, h⟩ := ok_bind h
    obtain ⟨_, _, h⟩ := ok_bind h
    obtain ⟨_, _, h⟩ := ok_bind h
    cases ok_pure h
    rfl

theorem rerunFromRaw_owner {utc : Instant} {ids : Uuid × Uuid} {r : Rerun}
    (h : rerunFromRaw cfg utc ids r s = .ok t) : t.owner = s.owner := by
  unfold rerunFromRaw at h
  obtain ⟨_, _, h⟩ := ok_bind h
  obtain ⟨_, _, h⟩ := ok_bind h
  obtain ⟨_, _, h⟩ := ok_bind h
  obtain ⟨_, _, h⟩ := ok_bind h
  obtain ⟨⟨s', work⟩, henq, h⟩ := ok_bind h
  obtain ⟨_, _, h⟩ := ok_bind h
  cases ok_pure h
  exact (enqueue_owner henq : s'.owner = _)

/-- The calls that ask the fence read a clock at or after `t₀`. -/
def Op.readsAfter (t₀ : Instant) : Op → Prop
  | .mutate utc _ _ _ | .ingest utc _ _ _ _ _ _ _ | .claimNextItem _ utc _ _
  | .completeItem utc _ => t₀ ≤ utc
  | _ => True

/-- A recover claim that presents the host lock of the slot. -/
def Op.recovers (host : Option String) : Op → Prop
  | .claim _ _ _ r => r.recover = true ∧ host = some r.hostLockIdentity
  | _ => False

theorem Owner.needsRecovery_later {o : Owner} {t₀ utc : Instant} (h : o.needsRecovery t₀ = true)
    (hle : t₀ ≤ utc) : o.needsRecovery utc = true := by
  simp only [Owner.needsRecovery, Bool.or_eq_true] at h ⊢
  rcases h with h | h
  · exact Or.inl h
  · right
    rw [Option.all_eq_true] at h ⊢
    intro e he
    exact decide_eq_true (le_trans (of_decide_eq_true (h e he)) hle)

theorem fence_dead {utc : Instant} {identity : FenceIdentity} {acquisition : Bool}
    (h : s.owner.needsRecovery utc = true) :
    ∃ e, fence cfg utc identity acquisition s = .error e := by
  cases hf : fence cfg utc identity acquisition s with
  | error e => exact ⟨e, rfl⟩
  | ok x =>
    obtain ⟨work, attempt⟩ := x
    have hlive := (fence_fenced hf).live
    rw [h] at hlive
    cases hlive

theorem mutate_dead {utc : Instant} {datasets : List DatasetKey} {identity : FenceIdentity}
    {action : Action} (h : s.owner.needsRecovery utc = true) :
    commit s (mutateDb cfg utc datasets identity action s) = s := by
  obtain ⟨e, he⟩ := @fence_dead cfg s utc identity false h
  unfold mutateDb
  rcases @mutate_closed cfg s utc datasets identity action e he with ⟨e', hr⟩ | ⟨_, _, _, hr⟩
  · rw [hr]
    rfl
  · rw [hr]
    rfl

theorem ingest_dead {utc : Instant} {d : DeliveryIdentity} {datasetKey : DatasetKey}
    {tradeDate : Option Date} {runId : Uuid} {sha : String} {members : Option (List MemberKey)}
    {replay : Bool} (h : s.owner.needsRecovery utc = true) :
    settled s (ingest cfg utc d datasetKey tradeDate runId sha members replay s) = s := by
  cases replay with
  | false =>
    obtain ⟨e, he⟩ := @ingest_closed cfg s utc d datasetKey tradeDate runId sha members
      fun workId => fence_dead h
    rw [he]
    rfl
  | true =>
    cases hi : ingest cfg utc d datasetKey tradeDate runId sha members true s with
    | error e => rfl
    | ok t =>
      unfold ingest at hi
      obtain ⟨work, _, hi⟩ := ok_bind hi
      simp only [if_true] at hi
      unfold replayReceipt at hi
      obtain ⟨_, _, hi⟩ := ok_bind hi
      exact ok_pure hi

theorem claimNextItem_dead {now utc : Instant} {datasets : List DatasetKey}
    {identity : Option FenceIdentity} (h : s.owner.needsRecovery utc = true) :
    settled s (claimNextItem cfg now utc datasets identity s) = s := by
  cases hc : claimNextItem cfg now utc datasets identity s with
  | error e => rfl
  | ok t =>
    unfold claimNextItem at hc
    obtain ⟨id, _, hc⟩ := ok_bind hc
    obtain ⟨x, hf, _⟩ := ok_bind hc
    obtain ⟨e, he⟩ := @fence_dead cfg (expireRequests cfg now s) utc id false
      (by rw [cancels_owner.expireRequests]; exact h)
    rw [he] at hf
    cases hf

theorem completeEndpoint_dead {utc : Instant} {r : CompleteItem}
    (h : s.owner.needsRecovery utc = true) : commit s (completeEndpoint cfg utc r s) = s := by
  have hleaves : ∀ t, Leaves (completeEndpoint cfg utc r s) t → t = s := by
    intro t hl
    unfold completeEndpoint at hl
    obtain ⟨_, _, hl⟩ := leaves_plain_bind hl
    unfold completeItem at hl
    obtain ⟨_, _, hl⟩ := leaves_plain_bind hl
    split at hl
    · obtain ⟨_, _, hl⟩ := leaves_plain_bind hl
      exact leaves_ok hl
    · obtain ⟨_, _, hl⟩ := leaves_plain_bind hl
      obtain ⟨id, _, hl⟩ := leaves_plain_bind hl
      obtain ⟨_, hf, _⟩ := leaves_plain_bind hl
      obtain ⟨e, he⟩ := @fence_dead cfg s utc { id with token := r.leaseToken } false h
      rw [he] at hf
      cases hf
  rcases commit_leaves s (completeEndpoint cfg utc r s) with hs | hl
  · exact hs
  · exact hleaves _ hl

/-- Without a recovery by its own host, a claim at most records the missed heartbeat. -/
theorem claim_dead {now utc : Instant} {token k : Uuid} {r : ClaimRequest}
    (howned : s.owner.attemptId = some k)
    (hrec : ¬ (r.recover = true ∧ s.owner.hostLockIdentity = some r.hostLockIdentity)) :
    (settled s (claimDb cfg now utc token r s)).owner = s.owner ∨
      (settled s (claimDb cfg now utc token r s)).owner =
        { s.owner with recoveryReason := some "heartbeat_missing" } := by
  unfold claimDb
  cases hc : claim cfg now utc token r s with
  | error e => exact Or.inl rfl
  | ok x =>
    unfold claim at hc
    obtain ⟨_, _, hc⟩ := ok_bind hc
    obtain ⟨_, _, hc⟩ := ok_bind hc
    obtain ⟨_, _, hc⟩ := ok_bind hc
    simp only [howned] at hc
    obtain ⟨attempt, _, hc⟩ := ok_bind hc
    obtain ⟨work, _, hc⟩ := ok_bind hc
    unfold claimOwned at hc
    split at hc
    · cases hc
      exact Or.inl rfl
    · split at hc
      · cases hc
        simp only [Except.map, settled]
        split
        · exact Or.inr rfl
        · exact Or.inl rfl
      · rename_i hrecover
        obtain ⟨_, hhost, _⟩ := ok_bind hc
        exact absurd ⟨by simpa using hrecover, by simpa using ensure_ok.mp hhost⟩ hrec

/-- No operation but its host's recovery revives a dead owner. -/
theorem apply_dead {op : Op} {t₀ : Instant} {k : Uuid} (howned : s.owner.attemptId = some k)
    (hdead : s.owner.needsRecovery t₀ = true) (hclock : op.readsAfter t₀)
    (hrec : ¬ op.recovers s.owner.hostLockIdentity) :
    (apply cfg op s).owner = s.owner ∨
      (apply cfg op s).owner = { s.owner with recoveryReason := some "heartbeat_missing" } := by
  cases op with
  | enqueue utc ids datasets r => exact Or.inl (settled_owner fun _ => enqueueEndpoint_owner)
  | claim now utc token r => exact claim_dead howned hrec
  | mutate utc datasets identity action =>
    exact Or.inl (congrArg _ (mutate_dead (Owner.needsRecovery_later hdead hclock)))
  | ingest utc d datasetKey tradeDate runId sha members replay =>
    exact Or.inl (congrArg _ (ingest_dead (Owner.needsRecovery_later hdead hclock)))
  | createRequest utc requestId ids r => exact Or.inl (settled_owner fun _ => createRequest_owner)
  | cancelRequest utc requestId actor => exact Or.inl (settled_owner fun _ => cancelRequest_owner)
  | expireRequests now => exact Or.inl (cancels_owner.expireRequests s)
  | reconcileCancelledQueue now utc => exact Or.inl (cancels_owner.reconcile s)
  | claimNextItem now utc datasets identity =>
    exact Or.inl (congrArg _ (claimNextItem_dead (Owner.needsRecovery_later hdead hclock)))
  | completeItem utc r =>
    exact Or.inl (congrArg _ (completeEndpoint_dead (Owner.needsRecovery_later hdead hclock)))
  | repairApply utc newId repairIds r => exact Or.inl (settled_owner fun _ => repairApply_owner)
  | calendarClosureApply utc r => exact Or.inl (settled_owner fun _ => calendarClosureApply_owner)
  | rerunFromRaw utc ids r => exact Or.inl (settled_owner fun _ => rerunFromRaw_owner)
  | attest host =>
    left
    refine settled_owner fun t ht => ?_
    unfold attest at ht
    obtain ⟨_, hidle, _⟩ := ok_bind ht
    simp [howned] at hidle
  | setRegistry | addEvidence | addIssue | addNoData => exact Or.inl rfl

/-- What a run may do while the host does not recover. -/
def Unrecovered (t₀ : Instant) (host : Option String) (_ : Db) (op : Op) : Prop :=
  op.readsAfter t₀ ∧ ¬ op.recovers host

/-- The slot of `t` still has the dead owner of `s`. -/
structure StillDead (t₀ : Instant) (s t : Db) : Prop where
  attemptId : t.owner.attemptId = s.owner.attemptId
  generation : t.owner.generation = s.owner.generation
  host : t.owner.hostLockIdentity = s.owner.hostLockIdentity
  dead : t.owner.needsRecovery t₀ = true

theorem StillDead.run {t₀ : Instant} {k : Uuid} (howned : s.owner.attemptId = some k)
    (hdead : s.owner.needsRecovery t₀ = true)
    (h : StepsIf (apply cfg) (Unrecovered t₀ s.owner.hostLockIdentity) s t) :
    StillDead t₀ s t := by
  refine h.inv (fun u op hu hop => ?_) ⟨rfl, rfl, rfl, hdead⟩
  rcases @apply_dead cfg u op t₀ k (hu.attemptId.trans howned) hu.dead hop.1 (hu.host ▸ hop.2) with
    ho | ho
  · exact ⟨ho ▸ hu.attemptId, ho ▸ hu.generation, ho ▸ hu.host, ho ▸ hu.dead⟩
  · refine ⟨ho ▸ hu.attemptId, ho ▸ hu.generation, ho ▸ hu.host, ?_⟩
    rw [ho]
    rfl

/-- The current identity has no settled round to replay. -/
theorem mutate_refused {utc : Instant} {datasets : List DatasetKey} {identity : FenceIdentity}
    {action : Action} {k : Uuid} {e : Err} (h : Reachable cfg s)
    (howned : s.owner.attemptId = some k) (hcurrent : identity.generation = s.owner.generation)
    (hfence : fence cfg utc identity false s = .error e) :
    Refused (mutate cfg utc datasets identity action s) := by
  rcases mutate_closed hfence with hr | ⟨work, previous, hp, _⟩
  · exact hr
  · have hid := h.generations.current previous hp.mem (hcurrent ▸ hp.generation) k howned
    have hactive := (h.shape.active hp.mem).mpr (by rw [howned, hid])
    rw [hp.settled] at hactive
    cases hactive

/-- **Fencing.** Of two claims the later has the greater generation; an identity
that was rotated away or whose round is settled changes nothing; and the current
identity of a dead owner changes nothing until its host recovers it. -/
theorem fencing_safe :
    (∀ s c t u c' v, Reachable cfg s → Claims cfg s c t → Steps cfg t u → Claims cfg u c' v →
      c.owner.generation < c'.owner.generation) ∧
    (∀ s c t u identity, Reachable cfg s → Claims cfg s c t → Steps cfg t u →
      c.issued identity → Superseded cfg t c u → ShutOut cfg u identity) ∧
    (∀ s t₀ k t identity, Reachable cfg s → s.owner.attemptId = some k →
      s.owner.needsRecovery t₀ = true →
      StepsIf (apply cfg) (Unrecovered t₀ s.owner.hostLockIdentity) s t →
      identity.generation = s.owner.generation → ∀ utc, t₀ ≤ utc →
        (∀ datasets action, Refused (mutate cfg utc datasets identity action t)) ∧
        ∀ (d : DeliveryIdentity) datasetKey tradeDate runId sha members, d.fence = identity →
          ∃ e, ingest cfg utc d datasetKey tradeDate runId sha members false t = .error e) := by
  refine ⟨?_, ?_, ?_⟩
  · intro s c t u c' v hr hc hrun hc'
    obtain ⟨howner, _, _⟩ := hc.rotates
    obtain ⟨_, hgen, _⟩ := hc'.rotates
    have hle := (hrun.rotates (hr.steps hc.steps)).1
    rw [howner] at hle
    omega
  · intro s c t u identity hr hc hrun hissued hgone
    exact hc.shutOut hr hrun hissued hgone
  · intro s t₀ k t identity hr howned hdead hrun hcurrent utc hle
    have hstill := StillDead.run howned hdead hrun
    have ht := hr.steps (hrun.weaken fun _ _ _ => trivial)
    have hdead' := Owner.needsRecovery_later hstill.dead hle
    refine ⟨fun datasets action => ?_, fun d datasetKey tradeDate runId sha members _ => ?_⟩
    · obtain ⟨e, he⟩ := @fence_dead cfg t utc identity false hdead'
      exact mutate_refused ht (hstill.attemptId.trans howned) (hcurrent.trans hstill.generation.symm)
        he
    · exact ingest_closed fun workId => fence_dead hdead'

/-- A round claimed at 5, dead at 120000005 and recovered at 200000000: the first
identity is shut out afterwards, and refused from its expiry on. -/
theorem fencing_safe_recovery :
    let cfg := utcConfig .twelveData
    let s := ranTwelveData [enqueueMaintenance]
    let t := apply cfg (.claim 5 5 7 (hostClaim false)) s
    let u := apply cfg (.claim 200000000 200000000 8 (hostClaim true)) t
    ShutOut cfg u ⟨1, 1, 7⟩ ∧ u.owner.generation = 2 ∧
      Refused (mutate cfg 120000005 ["us_equity_eod"] ⟨1, 1, 7⟩ (.heartbeat none) t) := by
  intro cfg s t u
  have hs : Reachable cfg s := reachable_runAll _ _
  have hclaim : ∃ c, Claims cfg s c t ∧ c.issued ⟨1, 1, 7⟩ :=
    ⟨_, ⟨5, 5, 7, hostClaim false, rfl⟩, rfl, rfl⟩
  have hagain : ∃ c, Claims cfg t c u := ⟨_, 200000000, 200000000, 8, hostClaim true, rfl⟩
  obtain ⟨c, hc, hissued⟩ := hclaim
  obtain ⟨c', hc'⟩ := hagain
  obtain ⟨_, hstale, hdead⟩ := @fencing_safe cfg
  refine ⟨hstale s c t u _ hs hc hc'.steps hissued ?_, by decide, ?_⟩
  · exact Or.inl ⟨t, c', u, StepsIf.refl t, hc', StepsIf.refl u⟩
  · exact (hdead t 120000005 2 t ⟨1, 1, 7⟩ (hs.steps hc.steps) (by decide) (by decide)
      (StepsIf.refl t) (by decide) 120000005 (le_refl _)).1 _ _

end FinDB.ProviderWork
