import FinDB.Ingestion.Steps
import FinDB.Normalization.Outbox
import FinDB.ProviderWork.Invariants

/-! # At most once

A key is delivered at most once however the calls interleave: only a commit writes
rows, it needs the key to be free, and whatever else a call does ends with the stored
run or a refusal. The invariant ties every payload to its one run; what each phase of a
call may rely on is `Call.Sound`. -/
namespace FinDB.Ingestion
open FinDB.Lib Relation

variable {cfg : Config} {s t : State}

/-! ## The invariant -/

/-- The run was created with the payload stored under the key. -/
def Delivery.delivers (d : Delivery) (s : State) (scope : IdempotencyScope) : Prop :=
  d.isRerun = false ∧ ∃ raw ∈ s.raws, raw.scope = scope ∧ d.rawPayloadId = some raw.rawPayloadId

/-- The payload and its run. -/
def Paired (raw : RawPayload) (d : Delivery) : Prop :=
  d.runId = raw.runId ∧ d.rawPayloadId = some raw.rawPayloadId ∧ d.isRerun = false

/-- The rows, each beside the ones it was committed with. -/
structure Sound (s : State) : Prop where
  delivered : ∀ raw ∈ s.raws, ∃ d ∈ s.deliveries, Paired raw d
  stored : ∀ d ∈ s.deliveries, d.isRerun = false → ∃ raw ∈ s.raws, Paired raw d
  payloads : ∀ a ∈ s.raws, ∀ b ∈ s.raws, a.rawPayloadId = b.rawPayloadId → a = b
  receipts : ∀ p, ∀ r ∈ (s.work p).receipts, ∀ q, ∀ r' ∈ (s.work q).receipts,
    r.runId = r'.runId → p = q
  jobs : ∀ j ∈ s.norm.jobs, ∀ j' ∈ s.norm.jobs, j.runId = j'.runId → j = j'
  requests : ∀ p, ProviderWork.RequestsEnded (s.work p)

/-- The response names the run stored under the key, for the same content and part. -/
def Agrees (cfg : Config) (s : State) (c : Call) (part : Option Uuid) (a : Accepted) : Prop :=
  ∃ raw ∈ s.raws, raw.scope = c.scope ∧ raw.runId = a.runId ∧
    raw.sameContent cfg c.request = true ∧
    ∃ d ∈ s.deliveries, Paired raw d ∧ d.deliveryPartId = part

/-- The rows of a draft belong to the call. -/
structure Draft.Of (cfg : Config) (c : Call) (part : Option Uuid) (d : Draft) : Prop where
  scope : d.raw.scope = c.scope
  content : d.raw.sameContent cfg c.request = true
  paired : Paired d.raw d.delivery
  part : d.delivery.deliveryPartId = part

/-- What a call may rely on in a phase. -/
def Call.Sound (cfg : Config) (s : State) (c : Call) : Phase → Prop
  | .flushed part _ d => d.Of cfg c part
  | .found _ raw => raw ∈ s.raws ∧ raw.scope = c.scope
  | .finished part (.ok a) => Agrees cfg s c part a
  | _ => True

structure Inv (cfg : Config) (s : State) : Prop where
  sound : Sound s
  calls : ∀ c ∈ s.calls, c.Sound cfg s c.phase

/-- Nothing is taken away: payloads, runs and receipts stay as they are, and jobs keep
their run. -/
structure Kept (s t : State) : Prop where
  raws : ∀ raw ∈ s.raws, raw ∈ t.raws
  deliveries : ∀ d ∈ s.deliveries, d ∈ t.deliveries
  jobs : ∀ j ∈ s.norm.jobs, ∃ j' ∈ t.norm.jobs, Normalization.Same j j'
  receipts : ∀ p, ∀ r ∈ (s.work p).receipts, r ∈ (t.work p).receipts

theorem Kept.refl (s : State) : Kept s s :=
  ⟨fun _ h => h, fun _ h => h, fun j hj => ⟨j, hj, .refl j⟩, fun _ _ h => h⟩

theorem Kept.trans {u : State} (h : Kept s t) (h' : Kept t u) : Kept s u := by
  refine ⟨fun r hr => h'.raws r (h.raws r hr), fun d hd => h'.deliveries d (h.deliveries d hd),
    fun j hj => ?_, fun p r hr => h'.receipts p r (h.receipts p r hr)⟩
  obtain ⟨j', hj', hsame⟩ := h.jobs j hj
  obtain ⟨j'', hj'', hsame'⟩ := h'.jobs j' hj'
  exact ⟨j'', hj'', hsame.trans hsame'⟩

theorem rows_eq (h : t.rows = s.rows) :
    t.raws = s.raws ∧ t.deliveries = s.deliveries ∧ t.norm = s.norm ∧ t.work = s.work := by
  simpa [State.rows] using h

theorem Kept.of_rows (h : t.rows = s.rows) : Kept s t := by
  obtain ⟨hraws, hdeliveries, hnorm, hwork⟩ := rows_eq h
  refine ⟨fun r hr => by rw [hraws]; exact hr, fun d hd => by rw [hdeliveries]; exact hd,
    fun j hj => ⟨j, by rw [hnorm]; exact hj, .refl j⟩, fun p r hr => by rw [hwork]; exact hr⟩

theorem Sound.of_rows (h : t.rows = s.rows) (hs : Sound s) : Sound t := by
  obtain ⟨hraws, hdeliveries, hnorm, hwork⟩ := rows_eq h
  refine ⟨?_, ?_, ?_, ?_, ?_, ?_⟩
  · rw [hraws, hdeliveries]; exact hs.delivered
  · rw [hraws, hdeliveries]; exact hs.stored
  · rw [hraws]; exact hs.payloads
  · rw [hwork]; exact hs.receipts
  · rw [hnorm]; exact hs.jobs
  · rw [hwork]; exact hs.requests

theorem Agrees.kept {c : Call} {part : Option Uuid} {a : Accepted} (h : Agrees cfg s c part a)
    (hk : Kept s t) : Agrees cfg t c part a := by
  obtain ⟨raw, hraw, hscope, hrun, hsame, d, hd, hp, hpart⟩ := h
  exact ⟨raw, hk.raws raw hraw, hscope, hrun, hsame, d, hk.deliveries d hd, hp, hpart⟩

theorem Call.Sound.kept {c : Call} {phase : Phase} (h : c.Sound cfg s phase) (hk : Kept s t) :
    c.Sound cfg t phase := by
  match phase, h with
  | .flushed _ _ _, h => exact h
  | .found _ raw, h => exact ⟨hk.raws raw h.1, h.2⟩
  | .finished _ (.ok _), h => exact Agrees.kept h hk
  | .finished _ (.error _), _ => trivial
  | .called, _ | .accepted _, _ | .validated _ _, _ | .missed _ _, _ | .keyed _ _, _
  | .unclaimed _ _, _ | .passed _ _ _, _ | .rolledBack _, _ => trivial

/-! ## Calls that go on -/

theorem mem_move {id : Uuid} {phase : Phase} {locks : List LockScope} {c : Call}
    (hc : c ∈ (s.move id phase locks).calls) :
    (c ∈ s.calls ∧ c.attemptId ≠ id) ∨
      ∃ d ∈ s.calls, d.attemptId = id ∧ c = { d with phase, locks } := by
  have hm : c ∈ s.calls.modify id ({ · with phase, locks }) := hc
  exact Table.mem_modify.mp hm

/-- What a phase relies on is about the request, not about the phase before. -/
theorem Call.Sound.moved {c : Call} {phase next : Phase} {locks : List LockScope}
    (h : c.Sound cfg s phase) : Call.Sound cfg s { c with phase := next, locks } phase := by
  match phase, h with
  | .flushed _ _ _, h => exact ⟨h.scope, h.content, h.paired, h.part⟩
  | .found _ _, h => exact h
  | .finished _ (.ok _), h => exact h
  | .finished _ (.error _), _ => trivial
  | .called, _ | .accepted _, _ | .validated _ _, _ | .missed _ _, _ | .keyed _ _, _
  | .unclaimed _ _, _ | .passed _ _ _, _ | .rolledBack _, _ => trivial

/-- A call that goes on to a phase it may be in keeps the invariant. -/
theorem Inv.move {c : Call} {phase : Phase} {locks : List LockScope} (hs : Inv cfg s)
    (hc : c ∈ s.calls) (hp : c.Sound cfg s phase) : Inv cfg (s.move c.attemptId phase locks) := by
  have hk : Kept s (s.move c.attemptId phase locks) := .of_rows rfl
  refine ⟨Sound.of_rows (s := s) rfl hs.sound, fun e he => ?_⟩
  rcases mem_move he with ⟨hmem, _⟩ | ⟨d, hd, hid, rfl⟩
  · exact (hs.calls e hmem).kept hk
  · cases Table.eq_of_key hd hc hid
    exact hp.moved.kept hk

theorem Inv.locking {c : Call} {lock : LockScope} {next : State} (hs : Inv cfg s)
    (hn : Inv cfg next) : Inv cfg (s.locking cfg c lock next) := by
  unfold State.locking
  split
  · exact hn
  · exact hs

/-! ## A commit -/

theorem newRaw_sameContent {now : Instant} {ids : NewIds} {c : Call} :
    (newRaw cfg now ids c).sameContent cfg c.request = true := by
  have hdigest : (newRaw cfg now ids c).digest cfg = cfg.payloadSha256 c.request.payload := by
    unfold RawPayload.digest newRaw
    split <;> simp_all
  simp only [RawPayload.sameContent, hdigest]
  simp [newRaw]

/-- What a flush has built is of its call. -/
theorem flush_of {now utc : Instant} {ids : NewIds} {c : Call} {work : ProviderWork.Work}
    {part : Option Uuid} {policy : PolicyResult} {p : Provider} {d : Draft}
    (h : flush cfg now utc ids c work part policy s = .ok (p, d)) : d.Of cfg c part := by
  unfold flush at h
  obtain ⟨_, _, h⟩ := ok_bind h
  obtain ⟨_, _, h⟩ := ok_bind h
  obtain ⟨receipt, _, h⟩ := ok_bind h
  obtain ⟨_, _, h⟩ := ok_bind h
  cases ok_pure h
  exact ⟨rfl, newRaw_sameContent, ⟨rfl, rfl, rfl⟩, rfl⟩

/-- The tables after the payload and the run are stored. -/
structure Stores (raw : RawPayload) (d : Delivery) (s t : State) : Prop where
  fresh : ∀ b ∈ s.raws, b.rawPayloadId ≠ raw.rawPayloadId
  raws : s.raws.insert? raw = some t.raws
  deliveries : s.deliveries.insert? d = some t.deliveries
  jobs : t.norm.jobs = s.norm.jobs
  work : t.work = s.work
  calls : t.calls = s.calls

theorem storeRun_stores {raw : RawPayload} {d : Delivery} (h : storeRun raw d s = .ok t) :
    Stores raw d s t := by
  unfold storeRun at h
  obtain ⟨_, hfresh, h⟩ := ok_bind h
  obtain ⟨raws, hraws, h⟩ := ok_bind h
  obtain ⟨deliveries, hdeliveries, h⟩ := ok_bind h
  obtain ⟨norm, hnorm, h⟩ := ok_bind h
  cases ok_pure h
  unfold Normalization.createRun at hnorm
  obtain ⟨runs, _, hnorm⟩ := ok_bind hnorm
  cases ok_pure hnorm
  refine ⟨fun b hb he => ?_, need_ok.mp hraws, need_ok.mp hdeliveries, rfl, rfl, rfl⟩
  have hany : s.raws.rows.any (·.rawPayloadId == raw.rawPayloadId) = true :=
    List.any_eq_true.mpr ⟨b, hb, by simpa using he⟩
  rw [ensure_ok, hany] at hfresh
  cases hfresh

theorem commitWork_ok {p : Provider} {db : ProviderWork.Db} (h : s.commitWork p db = .ok t) :
    s.receiptsSound p db = true ∧ t = s.setWork p db := by
  unfold State.commitWork at h
  obtain ⟨_, hsound, h⟩ := ok_bind h
  exact ⟨ensure_ok.mp hsound, ok_pure h⟩

/-- The receipts a commit lets through are of runs no other provider has. -/
theorem receiptsSound_other {p q : Provider} {db : ProviderWork.Db} {r r' : ProviderWork.Receipt}
    (h : s.receiptsSound p db = true) (hr : r ∈ db.receipts) (hq : r' ∈ (s.work q).receipts)
    (hrun : r.runId = r'.runId) : q = p := by
  have hall := List.all_eq_true.mp h r hr
  rw [Bool.and_eq_true] at hall
  have hother := List.all_eq_true.mp hall.2 q (mem_providers q)
  rcases Bool.or_eq_true _ _ |>.mp hother with he | hnone
  · exact beq_iff_eq.mp he
  · have hfind := Table.find?_eq_none.mp (Option.isNone_iff_eq_none.mp hnone)
    exact absurd hrun.symm (hfind r' hq)

/-- One receipt a run stays one receipt a run. -/
theorem receipts_setWork {p : Provider} {db : ProviderWork.Db}
    (hs : ∀ p, ∀ r ∈ (s.work p).receipts, ∀ q, ∀ r' ∈ (s.work q).receipts,
      r.runId = r'.runId → p = q)
    (h : s.receiptsSound p db = true) :
    ∀ a, ∀ r ∈ ((s.setWork p db).work a).receipts,
      ∀ b, ∀ r' ∈ ((s.setWork p db).work b).receipts, r.runId = r'.runId → a = b := by
  intro a r hr b r' hr' hrun
  rw [State.setWork_work] at hr hr'
  by_cases ha : a = p
  · by_cases hb : b = p
    · rw [ha, hb]
    · rw [if_pos ha] at hr
      rw [if_neg hb] at hr'
      rw [ha, receiptsSound_other h hr hr' hrun]
  · rw [if_neg ha] at hr
    by_cases hb : b = p
    · rw [if_pos hb] at hr'
      rw [hb, receiptsSound_other h hr' hr hrun.symm]
    · rw [if_neg hb] at hr'
      exact hs a r hr b r' hr' hrun

theorem Kept.setWork {p : Provider} {db : ProviderWork.Db}
    (h : ∀ r ∈ (s.work p).receipts, r ∈ db.receipts) : Kept s (s.setWork p db) := by
  refine ⟨fun _ h => h, fun _ h => h, fun j hj => ⟨j, hj, .refl j⟩, fun q r hr => ?_⟩
  rw [State.setWork_work]
  split
  · next hq => exact h r (hq ▸ hr)
  · exact hr

theorem Sound.setWork {p : Provider} {db : ProviderWork.Db} (hs : Sound s)
    (h : s.receiptsSound p db = true) (hreq : ProviderWork.RequestsEnded db) :
    Sound (s.setWork p db) := by
  refine ⟨hs.delivered, hs.stored, hs.payloads, receipts_setWork hs.receipts h, hs.jobs, fun q => ?_⟩
  rw [State.setWork_work]
  split
  · exact hreq
  · exact hs.requests q

/-- Workers and the dispatcher keep one job a run, and every job its run. -/
theorem transs_jobs {n m : Normalization.State}
    (h : Normalization.Transs cfg.normalization .free n m)
    (hn : ∀ j ∈ n.jobs, ∀ j' ∈ n.jobs, j.runId = j'.runId → j = j') :
    (∀ j ∈ m.jobs, ∀ j' ∈ m.jobs, j.runId = j'.runId → j = j') ∧
      ∀ j ∈ n.jobs, ∃ j' ∈ m.jobs, Normalization.Same j j' := by
  induction h with
  | refl => exact ⟨hn, fun j hj => ⟨j, hj, .refl j⟩⟩
  | tail _ hstep ih =>
    refine ⟨Normalization.trans_unique hstep ih.1, fun j hj => ?_⟩
    obtain ⟨j', hj', hsame⟩ := ih.2 j hj
    obtain ⟨j'', hj'', hsame'⟩ := Normalization.trans_keepsJob hstep hj'
    exact ⟨j'', hj'', hsame.trans hsame'⟩

theorem Sound.normalize {norm : Normalization.State} (hs : Sound s)
    (h : Normalization.Transs cfg.normalization .free s.norm norm) :
    Sound { s with norm } ∧ Kept s { s with norm } := by
  obtain ⟨hunique, hkeeps⟩ := transs_jobs h hs.jobs
  exact ⟨⟨hs.delivered, hs.stored, hs.payloads, hs.receipts, hunique, hs.requests⟩,
    ⟨fun _ h => h, fun _ h => h, hkeeps, fun _ _ h => h⟩⟩

theorem Stores.kept {raw : RawPayload} {d : Delivery} (h : Stores raw d s t) : Kept s t := by
  refine ⟨fun r hr => (Table.mem_insert? h.raws).mpr (Or.inl hr),
    fun e he => (Table.mem_insert? h.deliveries).mpr (Or.inl he),
    fun j hj => ⟨j, by rw [h.jobs]; exact hj, .refl j⟩, fun p r hr => by rw [h.work]; exact hr⟩

/-- A payload stored together with its run. -/
theorem Stores.sound {raw : RawPayload} {d : Delivery} (h : Stores raw d s t) (hs : Sound s)
    (hp : Paired raw d) : Sound t := by
  have hraw : raw ∈ t.raws := (Table.mem_insert? h.raws).mpr (Or.inr rfl)
  have hd : d ∈ t.deliveries := (Table.mem_insert? h.deliveries).mpr (Or.inr rfl)
  refine ⟨fun r hr => ?_, fun e he hrerun => ?_, fun a ha b hb hid => ?_, ?_, ?_, ?_⟩
  · rcases (Table.mem_insert? h.raws).mp hr with hold | rfl
    · obtain ⟨e, he, hpe⟩ := hs.delivered r hold
      exact ⟨e, h.kept.deliveries e he, hpe⟩
    · exact ⟨d, hd, hp⟩
  · rcases (Table.mem_insert? h.deliveries).mp he with hold | rfl
    · obtain ⟨r, hr, hpr⟩ := hs.stored e hold hrerun
      exact ⟨r, h.kept.raws r hr, hpr⟩
    · exact ⟨raw, hraw, hp⟩
  · rcases (Table.mem_insert? h.raws).mp ha with holdA | rfl
    · rcases (Table.mem_insert? h.raws).mp hb with holdB | rfl
      · exact hs.payloads a holdA b holdB hid
      · exact absurd hid (h.fresh a holdA)
    · rcases (Table.mem_insert? h.raws).mp hb with holdB | rfl
      · exact absurd hid.symm (h.fresh b holdB)
      · rfl
  · rw [h.work]; exact hs.receipts
  · rw [h.jobs]; exact hs.jobs
  · rw [h.work]; exact hs.requests

/-- What a commit has done: the key was free, and now it has its payload and run. -/
structure Commits (d : Draft) (s t : State) : Prop where
  free : ∀ raw ∈ s.raws, raw.scope ≠ d.raw.scope
  raw : d.raw ∈ t.raws
  delivery : d.delivery ∈ t.deliveries
  calls : t.calls = s.calls
  kept : Kept s t
  sound : Sound t

theorem store_commits {p : Provider} {d : Draft} (hs : Sound s) (hp : Paired d.raw d.delivery)
    (h : d.store cfg p s = .ok t) : Commits d s t := by
  unfold Draft.store at h
  obtain ⟨s₁, hstore, h⟩ := ok_bind h
  obtain ⟨receipts, hreceipts, h⟩ := ok_bind h
  obtain ⟨s₂, hwork, h⟩ := ok_bind h
  obtain ⟨norm, hnorm, h⟩ := ok_bind h
  cases ok_pure h
  have hst := storeRun_stores hstore
  have hs₁ := hst.sound hs hp
  obtain ⟨hsound, rfl⟩ := commitWork_ok hwork
  have hreq : ProviderWork.RequestsEnded { s₁.work p with
      receipts, issues := (s₁.work p).issues ++ d.issue.toList } :=
    ⟨(hs₁.requests p).parent, (hs₁.requests p).ended⟩
  have hkept : Kept s₁ (s₁.setWork p { s₁.work p with
      receipts, issues := (s₁.work p).issues ++ d.issue.toList }) :=
    .setWork fun r hr => (Table.mem_insert? (need_ok.mp hreceipts)).mpr (Or.inl hr)
  obtain ⟨hs₃, hkept₃⟩ := (hs₁.setWork hsound hreq).normalize
    (Normalization.createNormalizationJob_transs hnorm)
  refine ⟨fun r hr => Table.insert?_fresh hst.raws r hr, ?_, ?_, hst.calls,
    (hst.kept.trans hkept).trans hkept₃, hs₃⟩
  · exact (Table.mem_insert? hst.raws).mpr (Or.inr rfl)
  · exact (Table.mem_insert? hst.deliveries).mpr (Or.inr rfl)

/-! ## One step of a call -/

/-- What a step of a call can do: nothing, go on, or commit its draft. -/
inductive Goes (cfg : Config) (s : State) (c : Call) : State → Prop where
  | rest : Goes cfg s c s
  | move (phase : Phase) (locks : List LockScope) (unfinished : c.phase.ended = false)
      (sound : c.Sound cfg s phase) : Goes cfg s c (s.move c.attemptId phase locks)
  | commit {part : Option Uuid} {p : Provider} {d : Draft} {t : State}
      (at_ : c.phase = .flushed part p d) (h : d.store cfg p s = .ok t) :
      Goes cfg s c (t.finish c part (.ok ⟨d.raw.runId, some .queued, false⟩))

theorem Goes.locking {c : Call} {lock : LockScope} {next : State} (h : Goes cfg s c next) :
    Goes cfg s c (s.locking cfg c lock next) := by
  unfold State.locking
  split
  · exact h
  · exact .rest

/-- A refusal is always in order. -/
theorem Goes.refuse {c : Call} {part : Option Uuid} {e : Rejection} (h : c.phase.ended = false) :
    Goes cfg s c (s.finish c part (.error e)) := .move _ _ h trivial

/-- A lookup that finds the key goes on with the stored row. -/
theorem Goes.lookup {c : Call} {part : Option Uuid} {locks : List LockScope} {raw : RawPayload}
    (h : c.phase.ended = false) (hfind : s.raws.find? c.scope = some raw) :
    Goes cfg s c (s.move c.attemptId (.found part raw) locks) :=
  .move _ _ h (Table.find?_eq_some.mp hfind)

/-- A stored delivery is accepted again only for its own content and part. -/
theorem acceptExisting_agrees {utc : Instant} {part : Option Uuid} {raw : RawPayload} {c : Call}
    {a : Accepted} (hs : Sound s) (hraw : raw ∈ s.raws) (hscope : raw.scope = c.scope)
    (h : acceptExisting cfg utc part raw c s = .ok a) : Agrees cfg s c part a := by
  unfold acceptExisting at h
  obtain ⟨_, hsame, h⟩ := ok_bind h
  obtain ⟨_, hpart, h⟩ := ok_bind h
  obtain ⟨_, _, h⟩ := ok_bind h
  obtain ⟨_, _, h⟩ := ok_bind h
  obtain ⟨_, _, h⟩ := ok_bind h
  obtain ⟨_, _, h⟩ := ok_bind h
  cases ok_pure h
  obtain ⟨d, hd, hp⟩ := hs.delivered raw hraw
  have hfind : s.deliveries.find? raw.runId = some d := by
    rw [← hp.1]
    exact Table.find?_self hd
  rw [ensure_ok, hfind] at hpart
  exact ⟨raw, hraw, hscope, rfl, ensure_ok.mp hsame, d, hd, hp, by simpa using hpart⟩

theorem callStep_goes {c : Call} (op : Op) (hs : Inv cfg s) (hc : c ∈ s.calls) :
    Goes cfg s c (callStep cfg c op s) := by
  have hsound := hs.calls c hc
  unfold callStep
  split
  · next at_ =>
    have hopen : c.phase.ended = false := by rw [at_]; rfl
    refine Goes.locking ?_
    split
    · exact .move _ _ hopen trivial
    · exact .refuse hopen
  · next at_ =>
    have hopen : c.phase.ended = false := by rw [at_]; rfl
    split
    · exact .move _ _ hopen trivial
    · exact .refuse hopen
  · next at_ =>
    have hopen : c.phase.ended = false := by rw [at_]; rfl
    split
    · next hfind => exact .lookup hopen hfind
    · exact .move _ _ hopen trivial
  · next at_ =>
    have hopen : c.phase.ended = false := by rw [at_]; rfl
    exact Goes.locking (.move _ _ hopen trivial)
  · next at_ =>
    have hopen : c.phase.ended = false := by rw [at_]; rfl
    split
    · next hfind => exact .lookup hopen hfind
    · exact .move _ _ hopen trivial
  · next at_ =>
    have hopen : c.phase.ended = false := by rw [at_]; rfl
    refine Goes.locking ?_
    split
    · exact .move _ _ hopen trivial
    · exact .refuse hopen
  · next at_ =>
    have hopen : c.phase.ended = false := by rw [at_]; rfl
    split
    · next hflush => exact .move _ _ hopen (flush_of hflush)
    · exact .move _ _ hopen trivial
    · exact .refuse hopen
  · next at_ =>
    have hopen : c.phase.ended = false := by rw [at_]; rfl
    split
    · next hstore => exact .commit at_ hstore
    · exact .move _ _ hopen trivial
  · next at_ =>
    have hopen : c.phase.ended = false := by rw [at_]; rfl
    split
    · next hfind => exact .lookup hopen hfind
    · exact .refuse hopen
  · next utc part raw at_ =>
    have hopen : c.phase.ended = false := by rw [at_]; rfl
    rw [at_] at hsound
    refine Goes.locking (.move _ _ hopen ?_)
    cases h : acceptExisting cfg utc part raw c s with
    | error e => trivial
    | ok a => exact acceptExisting_agrees hs.sound hsound.1 hsound.2 h
  · split
    · exact .rest
    · next hopen => exact .refuse (by simpa using hopen)
  · exact .rest

/-- Growing rows keep what the calls rely on. -/
theorem Inv.grow (hs : Inv cfg s) (hsound : Sound t) (hk : Kept s t) (hcalls : t.calls = s.calls) :
    Inv cfg t := by
  refine ⟨hsound, fun c hc => ?_⟩
  rw [hcalls] at hc
  exact (hs.calls c hc).kept hk

theorem goes_inv {c : Call} (hs : Inv cfg s) (hc : c ∈ s.calls) (h : Goes cfg s c t) :
    Inv cfg t ∧ Kept s t := by
  cases h with
  | rest => exact ⟨hs, .refl s⟩
  | move phase locks _ sound => exact ⟨hs.move hc sound, .of_rows rfl⟩
  | @commit part p d u at_ h =>
    have hof : d.Of cfg c part := by
      have hsound := hs.calls c hc
      rw [at_] at hsound
      exact hsound
    have hcommits := store_commits hs.sound hof.paired h
    have hu : Inv cfg u := hs.grow hcommits.sound hcommits.kept hcommits.calls
    have hagrees : Agrees cfg u c part ⟨d.raw.runId, some .queued, false⟩ :=
      ⟨d.raw, hcommits.raw, hof.scope, rfl, hof.content, d.delivery, hcommits.delivery, hof.paired,
        hof.part⟩
    exact ⟨hu.move (hcommits.calls ▸ hc) hagrees, hcommits.kept.trans (.of_rows rfl)⟩

/-! ## Every operation -/

theorem begin_inv {id : Uuid} {session : Session} {request : IngressRequest} (hs : Inv cfg s)
    (h : begin id session request s = .ok t) : Inv cfg t ∧ t.rows = s.rows := by
  unfold begin at h
  obtain ⟨calls, hcalls, h⟩ := ok_bind h
  cases ok_pure h
  refine ⟨⟨Sound.of_rows (s := s) rfl hs.sound, fun c hc => ?_⟩, rfl⟩
  rcases (Table.mem_insert? (need_ok.mp hcalls)).mp hc with hold | rfl
  · exact (hs.calls c hold).kept (.of_rows rfl)
  · dsimp only
    split <;> trivial

theorem workStep_inv {p : Provider} {op : ProviderWork.Op} (hs : Inv cfg s) :
    Inv cfg (workStep cfg p op s) ∧ Kept s (workStep cfg p op s) := by
  have hcommit : Inv cfg (settled s (s.commitWork p (ProviderWork.apply (cfg.of p) op (s.work p)))) ∧
      Kept s (settled s (s.commitWork p (ProviderWork.apply (cfg.of p) op (s.work p)))) := by
    cases h : s.commitWork p (ProviderWork.apply (cfg.of p) op (s.work p)) with
    | error e => exact ⟨hs, .refl s⟩
    | ok t =>
      obtain ⟨hsound, rfl⟩ := commitWork_ok h
      have hreq := hs.sound.requests p
      have hkept : Kept s (s.setWork p (ProviderWork.apply (cfg.of p) op (s.work p))) :=
        .setWork fun r hr => ProviderWork.apply_receipts op hreq hr
      exact ⟨hs.grow (hs.sound.setWork hsound (ProviderWork.apply_requestsEnded op hreq)) hkept rfl,
        hkept⟩
  unfold workStep
  split
  · exact ⟨hs, .refl s⟩
  · exact ⟨hs, .refl s⟩
  · split
    · exact ⟨hs, .refl s⟩
    · exact hcommit

theorem workStep_calls (p : Provider) (op : ProviderWork.Op) :
    (workStep cfg p op s).calls = s.calls := by
  unfold workStep
  split
  · rfl
  · rfl
  · split
    · rfl
    · cases h : s.commitWork p (ProviderWork.apply (cfg.of p) op (s.work p)) with
      | error e => rfl
      | ok t =>
        obtain ⟨_, rfl⟩ := commitWork_ok h
        rfl

theorem rerun_calls (p : Provider) (utc : Instant) (ids : Uuid × Uuid) (r : ProviderWork.Rerun)
    (delivery : Delivery) : (settled s (rerun cfg p utc ids r delivery s)).calls = s.calls := by
  cases h : rerun cfg p utc ids r delivery s with
  | error e => rfl
  | ok t =>
    unfold rerun at h
    obtain ⟨_, _, h⟩ := ok_bind h
    obtain ⟨_, _, h⟩ := ok_bind h
    obtain ⟨_, _, h⟩ := ok_bind h
    obtain ⟨_, _, h⟩ := ok_bind h
    obtain ⟨_, _, h⟩ := ok_bind h
    obtain ⟨_, rfl⟩ := commitWork_ok h
    rfl

/-- A rerun adds a run and a receipt of its own and no payload. -/
theorem rerun_inv {p : Provider} {utc : Instant} {ids : Uuid × Uuid} {r : ProviderWork.Rerun}
    {delivery : Delivery} (hs : Inv cfg s) (h : rerun cfg p utc ids r delivery s = .ok t) :
    Inv cfg t ∧ Kept s t := by
  unfold rerun at h
  obtain ⟨_, _, h⟩ := ok_bind h
  obtain ⟨_, hrerun, h⟩ := ok_bind h
  obtain ⟨deliveries, hdeliveries, h⟩ := ok_bind h
  obtain ⟨norm, hnorm, h⟩ := ok_bind h
  obtain ⟨db, hdb, h⟩ := ok_bind h
  obtain ⟨hsound, rfl⟩ := commitWork_ok h
  have hrerun : delivery.isRerun = true := (Bool.and_eq_true_iff.mp (ensure_ok.mp hrerun)).1
  have hins := need_ok.mp hdeliveries
  unfold Normalization.createRun at hnorm
  obtain ⟨runs, _, hnorm⟩ := ok_bind hnorm
  cases ok_pure hnorm
  have happly : ProviderWork.apply (cfg.of p) (.rerunFromRaw utc ids r) (s.work p) = db := by
    simp only [ProviderWork.apply, mapError_ok hdb, settled]
  -- the rows beside the provider's
  have hmid : Sound { s with deliveries, norm := { s.norm with runs } } := by
    refine ⟨fun raw hraw => ?_, fun d hd hd' => ?_, hs.sound.payloads, hs.sound.receipts,
      hs.sound.jobs, hs.sound.requests⟩
    · obtain ⟨d, hd, hp⟩ := hs.sound.delivered raw hraw
      exact ⟨d, (Table.mem_insert? hins).mpr (Or.inl hd), hp⟩
    · rcases (Table.mem_insert? hins).mp hd with hold | rfl
      · exact hs.sound.stored d hold hd'
      · rw [hrerun] at hd'
        cases hd'
  have hkeptMid : Kept s { s with deliveries, norm := { s.norm with runs } } :=
    ⟨fun _ h => h, fun d hd => (Table.mem_insert? hins).mpr (Or.inl hd),
      fun j hj => ⟨j, hj, .refl j⟩, fun _ _ h => h⟩
  have hreq := hs.sound.requests p
  have hreceipts : ∀ r' ∈ (s.work p).receipts, r' ∈ db.receipts := by
    intro r' hr'
    rw [← happly]
    exact ProviderWork.apply_receipts _ hreq hr'
  have hkept := hkeptMid.trans (.setWork hreceipts)
  refine ⟨hs.grow (hmid.setWork hsound ?_) hkept rfl, hkept⟩
  rw [← happly]
  exact ProviderWork.apply_requestsEnded _ hreq

/-- Every operation keeps the invariant and takes nothing away. -/
theorem apply_inv (op : Op) (hs : Inv cfg s) : Inv cfg (apply cfg op s) ∧ Kept s (apply cfg op s) := by
  have hcall : ∀ id, Inv cfg (onCall cfg id op s) ∧ Kept s (onCall cfg id op s) := by
    intro id
    unfold onCall
    split
    · exact ⟨hs, .refl s⟩
    · next hfind =>
      have hc := (Table.find?_eq_some.mp hfind).1
      exact goes_inv hs hc (callStep_goes op hs hc)
  have hsettled : ∀ {ε : Type} (x : Except ε State), (∀ t, x = .ok t → Inv cfg t ∧ Kept s t) →
      Inv cfg (settled s x) ∧ Kept s (settled s x) := by
    intro ε x h
    cases x with
    | error e => exact ⟨hs, .refl s⟩
    | ok t => exact h t rfl
  cases op with
  | begin id session request =>
    refine hsettled _ fun t h => ?_
    obtain ⟨hinv, hrows⟩ := begin_inv hs h
    exact ⟨hinv, .of_rows hrows⟩
  | accept | validate | lookup | lockKey | recheck | judge | flush | commit | reread
  | acceptExisting | abort => exact hcall _
  | work p op => exact workStep_inv hs
  | rerun p utc ids r delivery => exact hsettled _ fun t h => rerun_inv hs h
  | normalize op =>
    cases op with
    | createRun => exact ⟨hs, .refl s⟩
    | _ =>
      obtain ⟨hsound, hkept⟩ := hs.sound.normalize
        (Normalization.apply_refines _ (Normalization.meets_free _))
      exact ⟨hs.grow hsound hkept rfl, hkept⟩
  | setDatasets datasets =>
    have hkept : Kept s { s with datasets } := .of_rows rfl
    exact ⟨hs.grow (Sound.of_rows (s := s) rfl hs.sound) hkept rfl, hkept⟩

/-! ## Runs -/

theorem inv_init (registry : Provider → ProviderWork.Registry) : Inv cfg (State.init registry) := by
  refine ⟨⟨?_, ?_, ?_, ?_, ?_, ?_⟩, ?_⟩
  · exact fun raw h => absurd h (Table.not_mem_empty raw)
  · exact fun d h => absurd h (Table.not_mem_empty d)
  · exact fun raw h => absurd h (Table.not_mem_empty raw)
  · exact fun p r h => absurd h (Table.not_mem_empty r)
  · exact fun j h => absurd h (Table.not_mem_empty j)
  · exact fun p => ProviderWork.requestsEnded_init (registry p)
  · exact fun c h => absurd h (Table.not_mem_empty c)

theorem steps_inv (h : Steps cfg s t) (hs : Inv cfg s) : Inv cfg t :=
  h.inv (I := Inv cfg) (fun _ op hi _ => (apply_inv op hi).1) hs

theorem steps_kept (h : Steps cfg s t) (hs : Inv cfg s) : Kept s t :=
  h.rel (I := Inv cfg) Kept.refl (fun _ _ _ => Kept.trans) (fun _ op hi _ => (apply_inv op hi).1)
    (fun _ op hi _ => (apply_inv op hi).2) hs

theorem ran_steps (ops : List Op) (s : State) : Steps cfg s (runAll (apply cfg) ops s) :=
  runAll_steps ops s (admitted_of_forall (fun _ _ => trivial) ops s)

theorem inv_ran (registry : Provider → ProviderWork.Registry) (ops : List Op) :
    Inv cfg (ran cfg registry ops) := steps_inv (ran_steps ops _) (inv_init registry)

theorem ran_append (registry : Provider → ProviderWork.Registry) (ops more : List Op) :
    ran cfg registry (ops ++ more) = runAll (apply cfg) more (ran cfg registry ops) :=
  runAll_append ops more _

/-! ## Answered calls -/

theorem mem_moved {c : Call} {phase : Phase} {locks : List LockScope} (hc : c ∈ s.calls) :
    { c with phase, locks } ∈ (s.move c.attemptId phase locks).calls := by
  have hm : { c with phase, locks } ∈ s.calls.modify c.attemptId ({ · with phase, locks }) :=
    Table.mem_modify.mpr (Or.inr ⟨c, hc, rfl, rfl⟩)
  exact hm

theorem mem_move_other {c : Call} {id : Uuid} {phase : Phase} {locks : List LockScope}
    (hc : c ∈ s.calls) (hid : c.attemptId ≠ id) : c ∈ (s.move id phase locks).calls := by
  have hm : c ∈ s.calls.modify id ({ · with phase, locks }) :=
    Table.mem_modify.mpr (Or.inl ⟨hc, hid⟩)
  exact hm

/-- A step of one call leaves every answered call as it is. -/
theorem goes_keeps {c e : Call} (hs : Inv cfg s) (hc : c ∈ s.calls) (he : e ∈ s.calls)
    (hended : e.phase.ended = true) (h : Goes cfg s c t) : e ∈ t.calls := by
  have hother : c.phase.ended = false → e.attemptId ≠ c.attemptId := by
    intro hopen hid
    cases Table.eq_of_key he hc hid
    rw [hopen] at hended
    cases hended
  cases h with
  | rest => exact he
  | move phase locks unfinished _ => exact mem_move_other he (hother unfinished)
  | @commit part p d u at_ h =>
    have hof : d.Of cfg c part := by
      have hsound := hs.calls c hc
      rw [at_] at hsound
      exact hsound
    have hcalls := (store_commits hs.sound hof.paired h).calls
    exact mem_move_other (hcalls ▸ he) (hother (by rw [at_]; rfl))

theorem apply_keeps {e : Call} (op : Op) (hs : Inv cfg s) (he : e ∈ s.calls)
    (hended : e.phase.ended = true) : e ∈ (apply cfg op s).calls := by
  have hcall : ∀ id, e ∈ (onCall cfg id op s).calls := by
    intro id
    unfold onCall
    split
    · exact he
    · next hfind =>
      have hc := (Table.find?_eq_some.mp hfind).1
      exact goes_keeps hs hc he hended (callStep_goes op hs hc)
  cases op with
  | begin id session request =>
    simp only [apply]
    cases h : begin id session request s with
    | error _ => exact he
    | ok t =>
      unfold begin at h
      obtain ⟨calls, hcalls, h⟩ := ok_bind h
      cases ok_pure h
      exact (Table.mem_insert? (need_ok.mp hcalls)).mpr (Or.inl he)
  | accept | validate | lookup | lockKey | recheck | judge | flush | commit | reread
  | acceptExisting | abort => exact hcall _
  | work p op =>
    simp only [apply, workStep_calls]
    exact he
  | rerun p utc ids r delivery =>
    simp only [apply, rerun_calls]
    exact he
  | normalize op => cases op <;> exact he
  | setDatasets datasets => exact he

theorem steps_keeps {e : Call} (h : Steps cfg s t) (hs : Inv cfg s) (he : e ∈ s.calls)
    (hended : e.phase.ended = true) : e ∈ t.calls := by
  have hboth : Inv cfg t ∧ e ∈ t.calls :=
    h.inv (I := fun u => Inv cfg u ∧ e ∈ u.calls)
      (fun _ op hu _ => ⟨(apply_inv op hu.1).1, apply_keeps op hu.1 hu.2 hended⟩) ⟨hs, he⟩
  exact hboth.2

/-- The call was answered as new. -/
def Call.created (c : Call) : Prop :=
  ∃ part a, c.phase = .finished part (.ok a) ∧ a.duplicate = false

/-- A call's operation writes no row, or it commits and the call is answered as new. -/
theorem apply_rows {op : Op} {id : Uuid} (hs : Inv cfg s) (hid : op.attempt = some id) :
    (apply cfg op s).rows = s.rows ∨
      ∃ c ∈ (apply cfg op s).calls, c.attemptId = id ∧ c.created := by
  have hcall : (onCall cfg id op s).rows = s.rows ∨
      ∃ c ∈ (onCall cfg id op s).calls, c.attemptId = id ∧ c.created := by
    unfold onCall
    split
    · exact Or.inl rfl
    · next c hfind =>
      obtain ⟨hc, rfl⟩ := Table.find?_eq_some.mp hfind
      have hgoes := callStep_goes op hs hc
      generalize callStep cfg c op s = t at hgoes
      cases hgoes with
      | rest => exact Or.inl rfl
      | move => exact Or.inl rfl
      | @commit part p d u at_ h =>
        have hof : d.Of cfg c part := by
          have hsound := hs.calls c hc
          rw [at_] at hsound
          exact hsound
        have hcalls := (store_commits hs.sound hof.paired h).calls
        exact Or.inr ⟨_, mem_moved (hcalls ▸ hc), rfl, part, _, rfl, rfl⟩
  cases op with
  | begin _ session request =>
    simp only [apply]
    cases h : begin _ session request s with
    | error _ => exact Or.inl rfl
    | ok t => exact Or.inl (begin_inv hs h).2
  | accept | validate | lookup | lockKey | recheck | judge | flush | commit | reread
  | acceptExisting | abort =>
    cases hid
    exact hcall
  | work | rerun | normalize | setDatasets => cases hid

/-- No operation of a call that was refused, or answered as a duplicate, writes a row. -/
theorem ran_rows {registry : Provider → ProviderWork.Registry} {ops pre post : List Op} {op : Op}
    {c : Call} {part : Option Uuid} {r : Except Rejection Accepted}
    (hc : c ∈ (ran cfg registry ops).calls) (hphase : c.phase = .finished part r)
    (hold : ∀ a, r = .ok a → a.duplicate = true) (hops : ops = pre ++ op :: post)
    (hid : op.attempt = some c.attemptId) :
    (ran cfg registry (pre ++ [op])).rows = (ran cfg registry pre).rows := by
  have hpre := @inv_ran cfg registry pre
  have hstep : ran cfg registry (pre ++ [op]) = apply cfg op (ran cfg registry pre) :=
    ran_append registry pre [op]
  rw [hstep]
  rcases apply_rows hpre hid with hrows | ⟨e, he, heid, part', a, hcreated, hnew⟩
  · exact hrows
  · -- the call would still be answered as new at the end
    exfalso
    have hrest : ran cfg registry ops = runAll (apply cfg) post (ran cfg registry (pre ++ [op])) := by
      rw [← ran_append, hops, List.append_assoc]
      rfl
    have hsteps : Steps cfg (ran cfg registry (pre ++ [op])) (ran cfg registry ops) := by
      rw [hrest]
      exact ran_steps post _
    have hend := steps_keeps hsteps (inv_ran registry _) (hstep ▸ he) (by rw [hcreated]; rfl)
    cases Table.eq_of_key hc hend heid.symm
    rw [hphase] at hcreated
    cases hcreated
    rw [hold a rfl] at hnew
    cases hnew

/-! ## At most once -/

/-- At most one payload, run, job and receipt are of the key. -/
structure AtMostOnce (s : State) (scope : IdempotencyScope) : Prop where
  raw : ∀ a ∈ s.raws, ∀ b ∈ s.raws, a.scope = scope → b.scope = scope → a = b
  run : ∀ d ∈ s.deliveries, ∀ e ∈ s.deliveries, d.delivers s scope → e.delivers s scope → d = e
  job : ∀ i ∈ s.norm.jobs, ∀ j ∈ s.norm.jobs, ∀ d ∈ s.deliveries, ∀ e ∈ s.deliveries,
    d.delivers s scope → e.delivers s scope → i.runId = d.runId → j.runId = e.runId → i = j
  receipt : ∀ p, ∀ r ∈ (s.work p).receipts, ∀ q, ∀ r' ∈ (s.work q).receipts,
    ∀ d ∈ s.deliveries, ∀ e ∈ s.deliveries, d.delivers s scope → e.delivers s scope →
      r.runId = d.runId → r'.runId = e.runId → p = q ∧ r = r'

theorem Sound.receipt_eq (hs : Sound s) {p q : Provider} {r r' : ProviderWork.Receipt}
    (hr : r ∈ (s.work p).receipts) (hr' : r' ∈ (s.work q).receipts) (hrun : r.runId = r'.runId) :
    p = q ∧ r = r' := by
  cases hs.receipts p r hr q r' hr' hrun
  exact ⟨rfl, Table.eq_of_key hr hr' hrun⟩

theorem Sound.atMostOnce (hs : Sound s) (scope : IdempotencyScope) : AtMostOnce s scope := by
  have hraw : ∀ a ∈ s.raws, ∀ b ∈ s.raws, a.scope = scope → b.scope = scope → a = b :=
    fun a ha b hb hsa hsb => Table.eq_of_key ha hb (hsa.trans hsb.symm)
  -- both runs are paired with the one payload, so they have its run id
  have hrun : ∀ d ∈ s.deliveries, ∀ e ∈ s.deliveries, d.delivers s scope → e.delivers s scope →
      d = e := by
    intro d hd e he ⟨hdr, a, ha, hsa, hda⟩ ⟨her, b, hb, hsb, heb⟩
    obtain ⟨a', ha', hpa⟩ := hs.stored d hd hdr
    obtain ⟨b', hb', hpb⟩ := hs.stored e he her
    have haa : a' = a := hs.payloads a' ha' a ha (Option.some.inj (hpa.2.1.symm.trans hda))
    have hbb : b' = b := hs.payloads b' hb' b hb (Option.some.inj (hpb.2.1.symm.trans heb))
    refine Table.eq_of_key hd he ?_
    rw [hpa.1, hpb.1, haa, hbb, hraw a ha b hb hsa hsb]
  refine ⟨hraw, hrun, fun i hi j hj d hd e he hds hes hid hje => ?_,
    fun p r hr q r' hr' d hd e he hds hes hrd hre => ?_⟩
  · cases hrun d hd e he hds hes
    exact hs.jobs i hi j hj (hid.trans hje.symm)
  · cases hrun d hd e he hds hes
    exact hs.receipt_eq hr hr' (hrd.trans hre.symm)

/-- The request is not the one stored as `raw`. -/
def Differs (cfg : Config) (s : State) (request : IngressRequest) (part : Option Uuid)
    (raw : RawPayload) : Prop :=
  raw.digest cfg ≠ cfg.payloadSha256 request.payload ∨ raw.source ≠ request.source ∨
  raw.schemaId ≠ some request.schemaId ∨ raw.schemaVersion ≠ some request.schemaVersion ∨
  ∃ d ∈ s.deliveries, d.runId = raw.runId ∧ d.deliveryPartId ≠ part

theorem Agrees.not_differs {c : Call} {part : Option Uuid} {a : Accepted} {raw : RawPayload}
    (h : Agrees cfg s c part a) (hraw : raw ∈ s.raws) (hscope : raw.scope = c.scope) :
    ¬ Differs cfg s c.request part raw := by
  obtain ⟨own, hown, hownScope, _, hsame, d, hd, hp, hpart⟩ := h
  cases Table.eq_of_key hraw hown (hscope.trans hownScope.symm)
  simp only [RawPayload.sameContent, Bool.and_eq_true, beq_iff_eq] at hsame
  rintro (hne | hne | hne | hne | ⟨e, he, hrun, hne⟩)
  · exact hne hsame.1.1.1
  · exact hne hsame.1.1.2
  · exact hne hsame.1.2
  · exact hne hsame.2
  · cases Table.eq_of_key he hd (hrun.trans hp.1.symm)
    exact hne hpart

/-- **At most once.** After any operations of any calls and of the services around
them: a key has at most one payload, run, job and receipt; an accepted call was given
the run stored under its key, which is paired with that payload; a call that differs
from what is stored is refused; a call that was refused or answered as a duplicate has
written nothing; and whatever happens next, every row stays and no receipt changes
hands. -/
theorem ingest_contract_at_most_once (cfg : Config) (registry : Provider → ProviderWork.Registry)
    (ops : List Op) :
    (∀ scope, AtMostOnce (ran cfg registry ops) scope) ∧
    (∀ c ∈ (ran cfg registry ops).calls, ∀ part a, c.phase = .finished part (.ok a) →
      ∃ raw ∈ (ran cfg registry ops).raws, raw.scope = c.scope ∧ raw.runId = a.runId ∧
        ∃ d ∈ (ran cfg registry ops).deliveries, Paired raw d) ∧
    (∀ c ∈ (ran cfg registry ops).calls, ∀ part r, c.phase = .finished part r →
      ∀ raw ∈ (ran cfg registry ops).raws, raw.scope = c.scope →
        Differs cfg (ran cfg registry ops) c.request part raw → ∃ e, r = .error e) ∧
    (∀ c ∈ (ran cfg registry ops).calls, ∀ part r, c.phase = .finished part r →
      (∀ a, r = .ok a → a.duplicate = true) →
      ∀ pre op post, ops = pre ++ op :: post → op.attempt = some c.attemptId →
        (ran cfg registry (pre ++ [op])).rows = (ran cfg registry pre).rows) ∧
    ∀ more, Kept (ran cfg registry ops) (ran cfg registry (ops ++ more)) ∧
      ∀ p, ∀ r ∈ ((ran cfg registry ops).work p).receipts, ∀ q,
        ∀ r' ∈ ((ran cfg registry (ops ++ more)).work q).receipts, r'.runId = r.runId →
          q = p ∧ r' = r := by
  have hinv := @inv_ran cfg registry ops
  refine ⟨hinv.sound.atMostOnce, ?_, ?_, ?_, ?_⟩
  · intro c hc part a hphase
    have hagrees := hinv.calls c hc
    rw [hphase] at hagrees
    obtain ⟨raw, hraw, hscope, hrun, _, d, hd, hp, _⟩ := hagrees
    exact ⟨raw, hraw, hscope, hrun, d, hd, hp⟩
  · intro c hc part r hphase raw hraw hscope hdiffers
    have hagrees := hinv.calls c hc
    rw [hphase] at hagrees
    cases r with
    | error e => exact ⟨e, rfl⟩
    | ok a => exact absurd hdiffers (Agrees.not_differs hagrees hraw hscope)
  · intro c hc part r hphase hold pre op post hops hid
    exact ran_rows hc hphase hold hops hid
  · intro more
    have hsteps : Steps cfg (ran cfg registry ops) (ran cfg registry (ops ++ more)) := by
      rw [ran_append]
      exact ran_steps more _
    have hkept := steps_kept hsteps hinv
    refine ⟨hkept, fun p r hr q r' hr' hrun => ?_⟩
    exact (inv_ran registry (ops ++ more)).sound.receipt_eq hr' (hkept.receipts p r hr) hrun

/-! ## Two workers with one key -/

def symbolsIdentity : ProviderWork.FenceIdentity := ⟨1, 1, 7⟩

/-- A running maintenance work of Twelve Data with one frozen member. -/
def symbolsWork : List Op :=
  [.work .twelveData ProviderWork.enqueueMaintenance,
    .work .twelveData (.claim 5 5 7 (ProviderWork.hostClaim false)),
    .work .twelveData (.mutate 5 ["us_equity_eod"] symbolsIdentity
      (.manifest (some ⟨[⟨"symbols", none, none, none⟩], none, false, none, none, [], none⟩))),
    .setDatasets fun _ =>
      some ⟨true, .ok (some ⟨"market_eod", [1], ["twelve_data"], some "USD"⟩)⟩]

/-- A call that delivers `payload` under the key `k`. -/
def beginCall (id : Uuid) (payload : String) : Op :=
  .begin id
    ⟨some 5, some "twelve_data", some ["us_equity_eod"], some ⟨symbolsIdentity, "symbols", none⟩⟩
    ⟨"twelve_data", "us_equity_eod", "r", "k", "market_eod", 1, 0, none, payload, ["A"], false⟩

/-- The statements of a call up to the commit of a new delivery. -/
def newCall (id : Uuid) : List Op :=
  [.accept id 6, .validate id (.ok none), .lookup id, .lockKey id, .recheck id,
    .judge id ⟨.pass, none⟩, .flush id 6 6 ⟨id + 10, id + 20, id + 30, ⟨id + 40, id + 50⟩⟩,
    .commit id]

/-- The statements of a call that finds its key on the fast path. -/
def replayCall (id : Uuid) : List Op :=
  [.accept id 7, .validate id (.ok none), .lookup id, .acceptExisting id 7]

/-- The run and the duplicate flag of an acceptance, or the status of a refusal. -/
def Phase.answer : Phase → Option (Uuid × Bool) × Option Nat
  | .finished _ (.ok a) => (some (a.runId, a.duplicate), none)
  | .finished _ (.error e) => (none, some e.answer.1)
  | _ => (none, none)

def plainConfig : Config where
  work := ProviderWork.utcConfig .twelveData
  normalization := ⟨3, minute, second, minute, 10, minute, fun _ => 0⟩
  payloadSha256 := id
  rawRetention := 30 * day
  hashtext := fun _ => 0

-- the second call waits for the provider lock, then finds the key; the third has another body
example :
    let s := ran plainConfig (fun p => ProviderWork.bareRegistry p "us_equity_eod")
      (symbolsWork ++ [beginCall 1 "x", beginCall 2 "x", beginCall 3 "y", .accept 1 6] ++ newCall 2 ++
        newCall 1 ++ replayCall 2 ++ replayCall 3)
    s.calls.rows.map (·.phase.answer) =
        [(some (11, false), none), (some (11, true), none), (none, some 409)] ∧
      s.raws.rows.length = 1 ∧ s.norm.jobs.rows.length = 1 ∧
      (s.work .twelveData).receipts.rows.map (·.runId) = [11] := by decide +kernel

end FinDB.Ingestion
