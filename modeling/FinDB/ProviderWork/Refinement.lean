import FinDB.ProviderWork.Steps
import FinDB.ProviderWork.Transitions

/-! # Every operation is a sequence of transitions

One lemma for each service: read its run backwards, name the transitions it
took. An endpoint that rolls back takes none. -/
namespace FinDB.ProviderWork
open FinDB.Lib Relation

variable {cfg : Config} {mode : Mode} {s t : Db}

theorem settled_transs {x : Except Err Db} (h : ∀ t, x = .ok t → Transs cfg mode s t) :
    Transs cfg mode s (settled s x) := by
  cases x with
  | error e => exact ReflTransGen.refl
  | ok t => exact h t rfl

theorem commit_transs {x : Except (Raised Err Db) Db} (h : ∀ t, Leaves x t → Transs cfg mode s t) :
    Transs cfg mode s (commit s x) := by
  rcases commit_leaves s x with he | hl
  · rw [he]; exact ReflTransGen.refl
  · exact h _ hl

/-! ## Enqueue -/

theorem addAttempt_ok {attemptId workId : Uuid} {number : Nat} {notBefore : Instant} {drain : Bool}
    {proof : Option Proof}
    (h : addAttempt attemptId workId number notBefore drain proof s = .ok t) :
    ∃ a attempts, Fresh a workId number ∧ a.queueOrder = s.queueSeq + 1 ∧
      s.attempts.insert? a = some attempts ∧
      t = { s with attempts, queueSeq := s.queueSeq + 1 } := by
  unfold addAttempt at h
  obtain ⟨_, _, h⟩ := ok_bind h
  obtain ⟨attempts, ha, h⟩ := ok_bind h
  exact ⟨_, attempts, ⟨rfl, rfl, rfl, rfl⟩, rfl, need_ok.mp ha, ok_pure h⟩

theorem workByKey_none {key : StableKey} (h : s.workByKey key = none) :
    ∀ x ∈ s.works, x.stableKey ≠ key := by
  intro x hx he
  have := List.find?_eq_none.mp h x hx
  simp [he] at this

theorem workByKey_some {key : StableKey} {w : Work} (h : s.workByKey key = some w) :
    w ∈ s.works ∧ w.stableKey = key := by
  refine ⟨List.mem_of_find?_eq_some h, ?_⟩
  simpa using List.find?_some h

/-- An enqueue adds a queued work with its first round, or finds the work there. -/
theorem enqueue_transs {utc : Instant} {ids : Uuid × Uuid} {r : EnqueueRequest} {w : Work}
    (row : s.workByKey r.stableKey = none → HistoricalRow s (r.work ids.1))
    (h : enqueue utc ids r s = .ok (t, w)) :
    Transs cfg mode s t ∧
      (s.workByKey r.stableKey = none → w = r.work ids.1 ∧ w ∈ t.works) ∧
      t.items = s.items ∧ t.requests = s.requests := by
  unfold enqueue at h
  obtain ⟨_, _, h⟩ := ok_bind h
  cases hk : s.workByKey r.stableKey with
  | some existing =>
    simp only [hk] at h
    obtain ⟨_, _, h⟩ := ok_bind h
    cases ok_pure h
    exact ⟨ReflTransGen.refl, (fun hn => by cases hn), rfl, rfl⟩
  | none =>
    simp only [hk] at h
    obtain ⟨works, hw, h⟩ := ok_bind h
    obtain ⟨s', ha, h⟩ := ok_bind h
    cases ok_pure h
    obtain ⟨a, attempts, hf, horder, hins, rfl⟩ := addAttempt_ok ha
    have hw := need_ok.mp hw
    refine ⟨Trans.single (.enqueue horder rfl (workByKey_none hk) (row hk) hf hw hins), ?_, rfl, rfl⟩
    intro _
    exact ⟨rfl, (Table.mem_insert? hw).mpr (Or.inr rfl)⟩

theorem historicalRow_of_kind {w : Work} (hkey : ∀ i, w.stableKey ≠ .historical i)
    (hkind : w.kind ≠ .historical) : HistoricalRow s w :=
  ⟨fun i hi => absurd hi (hkey i), fun hk => absurd hk hkind⟩

/-- The checks of the endpoint keep the historical keys to their own items. -/
theorem identityChecked_key {r : EnqueueRequest} (h : r.identityChecked = true)
    (hk : r.kind ≠ .historical) (hr : r.kind ≠ .rerun) (i : Uuid) :
    r.stableKey ≠ .historical i := by
  unfold EnqueueRequest.identityChecked at h
  intro he
  cases hkind : r.kind with
  | daily =>
    simp only [hkind, he] at h
    split at h
    · simp at h
    · cases h
  | historical => exact hk hkind
  | maintenance => simp [hkind, he] at h
  | rerun => exact hr hkind

theorem dailyReadiness_same {r r' : EnqueueRequest} (h : dailyReadiness cfg r s = .ok r') :
    r'.stableKey = r.stableKey ∧ r'.kind = r.kind := by
  unfold dailyReadiness at h
  split at h
  · split at h <;> cases h <;> exact ⟨rfl, rfl⟩
  · obtain ⟨_, _, h⟩ := ok_bind h
    obtain ⟨_, _, h⟩ := ok_bind h
    obtain ⟨_, _, h⟩ := ok_bind h
    obtain ⟨_, _, h⟩ := ok_bind h
    obtain ⟨_, _, h⟩ := ok_bind h
    cases ok_pure h
    exact ⟨rfl, rfl⟩

theorem enqueueEndpoint_transs {utc : Instant} {ids : Uuid × Uuid} {datasets : List DatasetKey}
    {r : EnqueueRequest} (h : enqueueEndpoint cfg utc ids datasets r s = .ok t) :
    Transs cfg mode s t := by
  unfold enqueueEndpoint at h
  obtain ⟨_, _, h⟩ := ok_bind h
  obtain ⟨_, _, h⟩ := ok_bind h
  obtain ⟨_, hrerun, h⟩ := ok_bind h
  obtain ⟨_, hid, h⟩ := ok_bind h
  obtain ⟨_, hhist, h⟩ := ok_bind h
  obtain ⟨r', hready, h⟩ := ok_bind h
  obtain ⟨⟨s', w⟩, henq, h⟩ := ok_bind h
  cases ok_pure h
  have hsame : r'.stableKey = r.stableKey ∧ r'.kind = r.kind := by
    unfold readyRequest at hready
    split at hready
    · exact dailyReadiness_same hready
    · cases hready; exact ⟨rfl, rfl⟩
  refine (enqueue_transs ?_ henq).1
  intro hnone
  have hnot : r.kind ≠ .historical := by
    intro hk
    have := ensure_ok.mp hhist
    simp [hk, ← hsame.1, hnone] at this
  have hrr : r.kind ≠ .rerun := by simpa using ensure_ok.mp hrerun
  refine historicalRow_of_kind (fun i => ?_) ?_
  · rw [show (r'.work ids.1).stableKey = r'.stableKey from rfl, hsame.1]
    exact identityChecked_key (ensure_ok.mp hid) hnot hrr i
  · rw [show (r'.work ids.1).kind = r'.kind from rfl, hsame.2]
    exact hnot

/-! ## The fenced services -/

theorem heartbeat_transs {utc : Instant} {identity : FenceIdentity} {floor : Option Stamp}
    (h : heartbeat cfg utc identity floor s = .ok t) : Transs cfg mode s t := by
  unfold heartbeat at h
  obtain ⟨_, _, h⟩ := ok_bind h
  obtain ⟨_, _, h⟩ := ok_bind h
  cases ok_pure h
  exact Trans.single (.touch _ rfl rfl rfl)

theorem close_transs {utc : Instant} {identity : FenceIdentity}
    (h : close cfg utc identity s = .ok t) : Transs cfg mode s t := by
  unfold close at h
  obtain ⟨⟨work, attempt⟩, hf, h⟩ := ok_bind h
  cases ok_pure h
  split
  · rename_i ho
    exact Trans.single (.close (fence_fenced hf).held (by simpa using ho))
  · exact ReflTransGen.refl

theorem freezeManifest_transs {utc : Instant} {identity : FenceIdentity} {manifest : Option Manifest}
    (h : freezeManifest cfg utc identity manifest s = .ok t) : Transs cfg mode s t := by
  unfold freezeManifest at h
  obtain ⟨⟨work, attempt⟩, hf, h⟩ := ok_bind h
  have held := (fence_fenced hf).held
  simp only at h
  split at h
  · cases ok_pure h; exact ReflTransGen.refl
  · unfold freezeNew at h
    obtain ⟨_, hnone, h⟩ := ok_bind h
    obtain ⟨_, _, h⟩ := ok_bind h
    obtain ⟨_, _, h⟩ := ok_bind h
    obtain ⟨m, _, h⟩ := ok_bind h
    obtain ⟨_, _, h⟩ := ok_bind h
    obtain ⟨_, _, h⟩ := ok_bind h
    obtain ⟨_, _, h⟩ := ok_bind h
    cases ok_pure h
    exact Trans.single (.freeze m held.workMem (Or.inl ⟨work, attempt, held, rfl⟩)
      (by simpa using ensure_ok.mp hnone))

/-- A new key is bound only by an open round that may acquire, and a stopped
work only binds what a receipt already accepted. -/
theorem storePrepared_ok {utc : Instant} {body : String} {stage : Stage} {jobKey : Option String}
    {request : Ingress} {work : Work} {attempt : Attempt}
    (h : storePrepared cfg utc body stage jobKey request work attempt s = .ok t) :
    ∃ p prepared, p.workId = work.workId ∧ attempt.state = .opened ∧ attempt.drainOnly = false ∧
      (acquisitionOpen cfg utc s work false = true ∨
        s.acceptedAs work.workId p.deliveryKey p.descriptor.payloadSha256 = true) ∧
      s.prepared.insert? p = some prepared ∧ t = { s with prepared } := by
  unfold storePrepared at h
  obtain ⟨_, _, h⟩ := ok_bind h
  obtain ⟨_, _, h⟩ := ok_bind h
  obtain ⟨_, ho, h⟩ := ok_bind h
  obtain ⟨_, ha, h⟩ := ok_bind h
  obtain ⟨prepared, hp, h⟩ := ok_bind h
  have ho := ensure_ok.mp ho
  have ha := ensure_ok.mp ha
  simp only [Bool.and_eq_true, beq_iff_eq, Bool.not_eq_true'] at ho
  simp only [Bool.or_eq_true] at ha
  exact ⟨_, prepared, rfl, ho.1, ho.2, ha, need_ok.mp hp, ok_pure h⟩

theorem registerPrepared_transs {utc : Instant} {identity : FenceIdentity} {body : String}
    {stage : Stage} {jobKey : Option String} (hm : mode.prepares)
    (h : registerPrepared cfg utc identity body stage jobKey s = .ok t) :
    Transs cfg mode s t := by
  unfold registerPrepared at h
  obtain ⟨⟨work, attempt⟩, hf, h⟩ := ok_bind h
  have held := (fence_fenced hf).held
  obtain ⟨request, _, h⟩ := ok_bind h
  obtain ⟨_, _, h⟩ := ok_bind h
  cases hd : s.descriptor work.workId request.idempotencyKey with
  | some previous =>
    simp only [hd] at h
    obtain ⟨_, _, h⟩ := ok_bind h
    cases ok_pure h
    split
    · exact Trans.single (.confirm _ _)
    · exact ReflTransGen.refl
  | none =>
    simp only [hd] at h
    obtain ⟨p, prepared, hw, ho, hdrain, hallowed, hins, rfl⟩ := storePrepared_ok h
    exact Trans.single (.prepare utc hm held hw ho hdrain hallowed hins)

theorem associateReceipt_transs {utc : Instant} {d : DeliveryIdentity} {runId : Uuid} {sha : String}
    {members : Option (List MemberKey)} {work : Work}
    (h : associateReceipt cfg utc d runId sha members work s = .ok t) : Transs cfg mode s t := by
  unfold associateReceipt at h
  obtain ⟨⟨owned, attempt⟩, hf, h⟩ := ok_bind h
  have hf := fence_fenced hf
  obtain ⟨_, _, h⟩ := ok_bind h
  obtain ⟨_, _, h⟩ := ok_bind h
  obtain ⟨_, _, h⟩ := ok_bind h
  obtain ⟨receipts, hr, h⟩ := ok_bind h
  cases ok_pure h
  exact Trans.single (.receipt (Or.inl ⟨owned, attempt, hf.held, hf.workId⟩) (need_ok.mp hr))

theorem ingest_transs {utc : Instant} {d : DeliveryIdentity} {datasetKey : DatasetKey}
    {tradeDate : Option Date} {runId : Uuid} {sha : String} {members : Option (List MemberKey)}
    {replay : Bool} (h : ingest cfg utc d datasetKey tradeDate runId sha members replay s = .ok t) :
    Transs cfg mode s t := by
  unfold ingest at h
  obtain ⟨work, _, h⟩ := ok_bind h
  split at h
  · unfold replayReceipt at h
    obtain ⟨_, _, h⟩ := ok_bind h
    cases ok_pure h
    exact ReflTransGen.refl
  · exact associateReceipt_transs h

/-! ## Settlement -/

theorem effective_outcome (r : Settlement) (work : Work) :
    (r.effective s work = r ∧ r.rerunFailed s work = false) ∨
      (r.outcome = .completed ∧ (r.effective s work).outcome = .failed) := by
  unfold Settlement.effective
  split
  · rename_i hr
    simp only [Settlement.rerunFailed, Bool.and_eq_true, beq_iff_eq] at hr
    exact Or.inr ⟨hr.1.2, rfl⟩
  · rename_i hr
    exact Or.inl ⟨rfl, by simpa using hr⟩

/-- The prepared check survives the rerun rule. -/
theorem effective_prepared {r : Settlement} {work : Work} (hc : r.coversPrepared s work.workId = true)
    (hr : (r.effective s work).outcome ≠ .retry) :
    (s.pendingPrepared work.workId).isEmpty = true ∨
      (r.effective s work).manual s work.workId = true := by
  rcases effective_outcome (s := s) r work with ⟨he, _⟩ | ⟨hcompleted, _⟩
  · rw [he] at hr ⊢
    simp only [Settlement.coversPrepared, Bool.or_eq_true, beq_iff_eq] at hc
    rcases hc with (hc | hc) | hc
    · exact Or.inl hc
    · exact absurd hc hr
    · exact Or.inr hc
  · simp only [Settlement.coversPrepared, Settlement.manual, hcompleted] at hc
    left
    simpa using hc

/-- What a settlement that returns has found in `s`. -/
structure Settles (cfg : Config) (utc : Instant) (identity : FenceIdentity)
    (validated : Option Uuid) (r : Settlement) (s : Db) (work : Work) (attempt : Attempt) :
    Prop where
  fenced : Fenced utc identity s work attempt
  closed : attempt.state = .closed ∨ attempt.state = .draining
  covers : r.coversPrepared s work.workId = true
  terminal : s.runsTerminal work.workId = true
  evidence : settleEvidence cfg s work validated (r.effective s work) = .ok ()
  errors : sourceErrorsChecked work (r.effective s work) = true

theorem Settles.checked {utc : Instant} {identity : FenceIdentity} {validated : Option Uuid}
    {r : Settlement} {work : Work} {attempt : Attempt}
    (h : Settles cfg utc identity validated r s work attempt)
    (final : (r.effective s work).outcome ≠ .retry) :
    Checked cfg s work validated (r.effective s work) :=
  ⟨final, effective_prepared h.covers final, h.terminal, h.evidence⟩

/-- A settlement that returns was retried at the tail or is final. -/
theorem settle_ok {utc : Instant} {newId : Uuid} {identity : FenceIdentity}
    {validated : Option Uuid} {r : Settlement}
    (h : settle cfg utc newId identity validated r s = .ok t) :
    ∃ work attempt, Settles cfg utc identity validated r s work attempt ∧
      (((r.effective s work).outcome = .retry ∧
          settleRetry cfg utc newId (r.effective s work) work attempt s = .ok t) ∨
        ((r.effective s work).outcome ≠ .retry ∧
          t = s.finish attempt utc (r.effective s work))) := by
  unfold settle at h
  obtain ⟨⟨work, attempt⟩, hf, h⟩ := ok_bind h
  obtain ⟨_, hclosed, h⟩ := ok_bind h
  obtain ⟨_, hcovers, h⟩ := ok_bind h
  obtain ⟨_, hterminal, h⟩ := ok_bind h
  obtain ⟨_, hev, h⟩ := ok_bind h
  obtain ⟨_, herrors, h⟩ := ok_bind h
  have hclosed : attempt.state = .closed ∨ attempt.state = .draining := by
    simpa using ensure_ok.mp (plain_ok.mp hclosed)
  refine ⟨work, attempt, ⟨fence_fenced (plain_ok.mp hf), hclosed, ensureOrKeep_ok.mp hcovers,
    ensureOrKeep_ok.mp hterminal, plain_ok.mp hev, ensure_ok.mp (plain_ok.mp herrors)⟩, ?_⟩
  split at h
  · rename_i hretry
    exact Or.inl ⟨by simpa using hretry, plain_ok.mp h⟩
  · rename_i hretry
    exact Or.inr ⟨by simpa using hretry, ok_pure h⟩

/-- A settlement whose refusal is committed leaves the round draining. -/
theorem settle_kept {utc : Instant} {newId : Uuid} {identity : FenceIdentity}
    {validated : Option Uuid} {r : Settlement} {e : Err}
    (h : settle cfg utc newId identity validated r s = .error ⟨e, some t⟩) :
    ∃ work attempt, Fenced utc identity s work attempt ∧
      (attempt.state = .closed ∨ attempt.state = .draining) ∧
      t = s.setAttempt attempt.attemptId ({ · with state := .draining }) := by
  unfold settle at h
  obtain ⟨⟨work, attempt⟩, hf, h⟩ := kept_plain_bind h
  obtain ⟨_, hclosed, h⟩ := kept_plain_bind h
  have hclosed : attempt.state = .closed ∨ attempt.state = .draining := by
    simpa using ensure_ok.mp hclosed
  refine ⟨work, attempt, fence_fenced hf, hclosed, ?_⟩
  rcases kept_keep_bind h with ht | h
  · exact ht
  rcases kept_keep_bind h with ht | h
  · exact ht
  obtain ⟨_, _, h⟩ := kept_plain_bind h
  obtain ⟨_, _, h⟩ := kept_plain_bind h
  split at h
  · exact absurd h kept_plain
  · cases h

theorem settleRetry_transs {utc : Instant} {newId : Uuid} {r : Settlement} {work : Work}
    {attempt : Attempt} (held : Held s work attempt)
    (closed : attempt.state = .closed ∨ attempt.state = .draining) (isRetry : r.outcome = .retry)
    (h : settleRetry cfg utc newId r work attempt s = .ok t) : Transs cfg mode s t := by
  unfold settleRetry at h
  obtain ⟨_, _, h⟩ := ok_bind h
  obtain ⟨s', ha, h⟩ := ok_bind h
  cases ok_pure h
  obtain ⟨a, attempts, hfresh, horder, hins, rfl⟩ := addAttempt_ok ha
  exact Trans.single (.retry utc r horder held closed isRetry hfresh hins)

theorem settle_transs {utc : Instant} {newId : Uuid} {identity : FenceIdentity}
    {validated : Option Uuid} {r : Settlement}
    (domain : mode.strict → ∀ work attempt, Settles cfg utc identity validated r s work attempt →
      (r.effective s work).outcome ≠ .retry → ItemEnded s work)
    (h : Leaves (settle cfg utc newId identity validated r s) t) : Transs cfg mode s t := by
  rcases leaves_cases h with h | ⟨e, h⟩
  · obtain ⟨work, attempt, hset, ⟨hr, hretry⟩ | ⟨hfinal, rfl⟩⟩ := settle_ok h
    · exact settleRetry_transs hset.fenced.held hset.closed hr hretry
    · exact Trans.single (.finish utc _ validated hset.fenced.held hset.closed (hset.checked hfinal)
        fun hs => domain hs work attempt hset hfinal)
  · obtain ⟨work, attempt, hf, hclosed, rfl⟩ := settle_kept h
    exact Trans.single (.drain hf.held hclosed)

/-- Without the domain validator a historical work is never completed or partial. -/
theorem checked_historical {work : Work} {r : Settlement} (hk : work.kind = .historical)
    (hc : Checked cfg s work none r) : r.outcome = .failed ∨ r.outcome = .cancelled := by
  have hev := hc.evidence
  unfold settleEvidence at hev
  have hdomain : domainValidated work none = false := by simp [domainValidated, hk]
  cases ho : r.outcome with
  | completed =>
    simp only [ho] at hev
    split at hev
    · obtain ⟨_, _, hev⟩ := ok_bind hev
      obtain ⟨_, _, hev⟩ := ok_bind hev
      simp [hdomain] at hev
    · obtain ⟨_, _, hev⟩ := ok_bind hev
      simp [hdomain] at hev
  | partly =>
    simp only [ho] at hev
    obtain ⟨_, _, hev⟩ := ok_bind hev
    obtain ⟨_, _, hev⟩ := ok_bind hev
    simp [hdomain] at hev
  | failed => exact Or.inl rfl
  | cancelled => exact Or.inr rfl
  | retry => exact absurd ho hc.final

theorem effective_historical {work : Work} {r : Settlement} (hk : work.kind = .historical) :
    r.effective s work = r := by
  simp [Settlement.effective, Settlement.rerunFailed, hk]

/-! ## The fenced endpoint -/

/-- The endpoint would let this settlement give the owned work up now. -/
structure GivesUp (cfg : Config) (utc : Instant) (datasets : List DatasetKey)
    (identity : FenceIdentity) (r : Settlement) (s : Db) (work : Work) (attempt : Attempt) :
    Prop where
  outcome : r.outcome = .failed ∨ r.outcome = .cancelled
  scope : sourceScope cfg datasets = .ok ()
  dataset : datasets.contains work.datasetKey = true
  settles : Settles cfg utc identity none r s work attempt

/-- A generic settlement that gives a historical work up finds its item ended. -/
def SettlesEnded (cfg : Config) (utc : Instant) (datasets : List DatasetKey)
    (identity : FenceIdentity) (s : Db) : Action → Prop
  | .settle r _ => ∀ work attempt, GivesUp cfg utc datasets identity r s work attempt →
      ItemEnded s work
  | .heartbeat _ | .manifest _ | .prepare _ _ _ | .close => True

/-- The action that may bind a new key. -/
def Action.prepares : Action → Prop
  | .prepare _ _ _ => True
  | .heartbeat _ | .manifest _ | .close | .settle _ _ => False

theorem run_transs {utc : Instant} {datasets : List DatasetKey} {identity : FenceIdentity}
    {action : Action} (hscope : sourceScope cfg datasets = .ok ())
    (hdataset : ∀ work ∈ s.works, work.workId = identity.workId →
      datasets.contains work.datasetKey = true)
    (domain : mode.strict → SettlesEnded cfg utc datasets identity s action)
    (hm : action.prepares → mode.prepares)
    (h : Leaves (action.run cfg utc identity s) t) : Transs cfg mode s t := by
  cases action with
  | heartbeat floor =>
    obtain ⟨t', h', hl⟩ := leaves_plain h
    exact hl ▸ heartbeat_transs h'
  | manifest m =>
    obtain ⟨t', h', hl⟩ := leaves_plain h
    exact hl ▸ freezeManifest_transs h'
  | prepare body stage jobKey =>
    obtain ⟨t', h', hl⟩ := leaves_plain h
    exact hl ▸ registerPrepared_transs (hm trivial) h'
  | close =>
    obtain ⟨t', h', hl⟩ := leaves_plain h
    exact hl ▸ close_transs h'
  | settle r newId =>
    refine settle_transs (fun hs work attempt hset hfinal hk => ?_) h
    have he := effective_historical (s := s) (r := r) hk
    have houtcome := checked_historical hk (hset.checked hfinal)
    rw [he] at houtcome
    exact domain hs work attempt ⟨houtcome, hscope, hdataset work hset.fenced.workMem
      hset.fenced.workId, hset⟩ hk

/-- What `mutate` leaves: the same state for a replay, else what the fenced service leaves. -/
theorem mutate_leaves {utc : Instant} {datasets : List DatasetKey} {identity : FenceIdentity}
    {action : Action} (h : Leaves (mutateDb cfg utc datasets identity action s) t) :
    t = s ∨ (sourceScope cfg datasets = .ok () ∧
      (∀ work ∈ s.works, work.workId = identity.workId →
        datasets.contains work.datasetKey = true) ∧
      Leaves (action.run cfg utc identity s) t) := by
  unfold mutateDb mutate at h
  obtain ⟨_, hscope, h⟩ := leaves_map_plain_bind h
  cases hp : action.previous datasets identity s with
  | some previous =>
    simp only [hp] at h
    obtain ⟨work, _, h⟩ := leaves_map_plain_bind h
    obtain ⟨_, _, h⟩ := leaves_map_plain_bind h
    exact Or.inl (leaves_ok h)
  | none =>
    simp only [hp] at h
    obtain ⟨⟨work, attempt⟩, hf, h⟩ := leaves_map_plain_bind h
    obtain ⟨_, hdataset, h⟩ := leaves_map_plain_bind h
    have hf := fence_fenced hf
    refine Or.inr ⟨hscope, fun w hw hid => ?_, ?_⟩
    · rw [Table.eq_of_key hw hf.workMem (hid.trans hf.workId.symm)]
      exact ensure_ok.mp hdataset
    rcases leaves_map_bind h with ⟨e, he⟩ | ⟨u, hu, h⟩
    · rw [he]; exact Leaves.kept e t
    · obtain ⟨_, _, h⟩ := leaves_map_plain_bind h
      rw [hu, leaves_ok h]
      exact Leaves.returned u

theorem mutate_transs {utc : Instant} {datasets : List DatasetKey} {identity : FenceIdentity}
    {action : Action} (domain : mode.strict → SettlesEnded cfg utc datasets identity s action)
    (hm : action.prepares → mode.prepares)
    (h : Leaves (mutateDb cfg utc datasets identity action s) t) : Transs cfg mode s t := by
  rcases mutate_leaves h with rfl | ⟨hscope, hdataset, hrun⟩
  · exact ReflTransGen.refl
  · exact run_transs hscope hdataset domain hm hrun

end FinDB.ProviderWork
