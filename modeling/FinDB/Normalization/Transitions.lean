import Mathlib.Logic.Relation
import FinDB.Normalization.Steps

/-! # The transitions behind the steps

Every operation of the queue is a sequence of the guarded writes below. A `Mode`
says what a run promises about them. -/
namespace FinDB.Normalization
open FinDB.Lib Relation

structure Mode where
  /-- A worker that gets the lock finds neither row ended. -/
  fresh : Prop
  /-- Every execution is counted, and no exhausted job is requeued. -/
  counted : Prop

def Mode.free : Mode := ⟨False, False⟩
def Mode.freshly : Mode := ⟨True, False⟩
def Mode.countedly : Mode := ⟨False, True⟩

/-- The run or its job is completed, completed with errors or failed. -/
def Ended (s : State) (runId : Uuid) : Prop :=
  (∃ r ∈ s.runs, r.runId = runId ∧ r.status.terminal = true) ∨
  ∃ j ∈ s.jobs, j.runId = runId ∧ j.status.terminal = true

/-- A processing job of which one more execution is left. -/
def Job.spare (job : Job) : Prop := job.status = .processing → job.attemptCount < job.maxAttempts

/-- An execution that will be counted: the job was read as waiting, and its count
is still the one that was read. -/
def Countable (s : State) (job : Job) : Prop :=
  job.status ≠ .processing ∧ ∀ j ∈ s.jobs, j.jobId = job.jobId → j.attemptCount = job.attemptCount

/-- What requeuing keeps of a job. -/
structure Requeues (job job' : Job) : Prop where
  jobId : job'.jobId = job.jobId
  runId : job'.runId = job.runId
  datasetKey : job'.datasetKey = job.datasetKey
  attemptCount : job'.attemptCount = job.attemptCount
  maxAttempts : job'.maxAttempts = job.maxAttempts
  status : job'.status = .queued ∨
    job'.status = job.status ∧ job.status ≠ .processing

/-- An outbox row that carries a delivery of a job. -/
structure Carries (row : Outbox) (jobId deliveryId : Uuid) : Prop where
  jobId : row.jobId = jobId
  deliveryId : row.deliveryId = deliveryId
  pending : row.status = .pending

/-- A worker goes on without a write. -/
inductive Goes (cfg : Config) (mode : Mode) (s : State) (w : Worker) : Phase → Prop where
  | readJob (at_ : w.phase = .received) : Goes cfg mode s w (.readJob (s.jobOf w.runId))
  | check {job : Option Job} (at_ : w.phase = .readJob job) :
      Goes cfg mode s w (checkDelivery w.deliveryId job (s.runs.find? w.runId))
  | contend {job : Job} {run : Run} (at_ : w.phase = .checked job run) :
      Goes cfg mode s w (.contended job)
  | lock {job : Job} {run : Run} (at_ : w.phase = .checked job run)
      (free : s.lockHeld cfg job.datasetKey = false) (fresh : mode.fresh → ¬ Ended s w.runId) :
      Goes cfg mode s w (.locked job run)
  | abort {job : Job} {run : Run} (at_ : w.phase = .locked job run) (message : String) :
      Goes cfg mode s w (.raised job message)
  | fail {job : Job} {run : Run} (at_ : w.phase = .executing job run) (code : FailureCode)
      (message : String) : Goes cfg mode s w (.failing job code message)
  | raise {job : Job} {run : Run} (at_ : w.phase = .executing job run) (message : String) :
      Goes cfg mode s w (.raised job message)
  | refused {job : Job} (at_ : (∃ code message, w.phase = .failing job code message) ∨
      ∃ message, w.phase = .raised job message) : Goes cfg mode s w (.releasing job)
  | stop : Goes cfg mode s w .done

inductive Trans (cfg : Config) (mode : Mode) : State → State → Prop where
  | run {s : State} {runId : Uuid} {datasetKey : DatasetKey} {runs}
      (hr : s.runs.insert? (newRun runId datasetKey) = some runs) :
      Trans cfg mode s { s with runs }
  | job {s : State} {job : Job} {row : Outbox} {jobs outbox}
      (fresh : ∀ j ∈ s.jobs, j.runId ≠ job.runId) (owner : ∃ r ∈ s.runs, r.runId = job.runId)
      (queued : job.status = .queued)
      (unused : job.attemptCount = 0) (bound : job.maxAttempts = cfg.maxAttempts)
      (carries : Carries row job.jobId job.deliveryId) (hj : s.jobs.insert? job = some jobs)
      (ho : s.outbox.insert? row = some outbox) :
      Trans cfg mode s { s with jobs, outbox }
  | unlease {s : State} {job : Job} (f : Job → Job) (hf : ∀ r, (f r).jobId = r.jobId)
      (mem : job ∈ s.jobs) (waiting : job.status.terminal = false) (requeues : Requeues job (f job))
      (same : (f job).deliveryId = job.deliveryId) (spare : mode.counted → job.spare) :
      Trans cfg mode s (s.setJob job.jobId f hf)
  | redeliver {s : State} {job : Job} {row : Outbox} {outbox} (f : Job → Job)
      (hf : ∀ r, (f r).jobId = r.jobId) (mem : job ∈ s.jobs)
      (waiting : job.status.terminal = false) (requeues : Requeues job (f job))
      (carries : Carries row job.jobId (f job).deliveryId) (spare : mode.counted → job.spare)
      (ho : s.outbox.insert? row = some outbox) :
      Trans cfg mode s { s.setJob job.jobId f hf with outbox }
  | outbox {s : State} (p : Outbox → Bool) (f : Outbox → Outbox)
      (hf : ∀ o, (f o).outboxId = o.outboxId)
      (keeps : ∀ o, (f o).jobId = o.jobId ∧ (f o).deliveryId = o.deliveryId) :
      Trans cfg mode s { s with outbox := s.outbox.update p f hf }
  | broker {s : State} (dispatches : List Dispatch) (sent : List (Uuid × Uuid)) :
      Trans cfg mode s { s with dispatches, sent }
  | receive {s : State} {w : Worker} {workers} (at_ : w.phase = .received)
      (hw : s.workers.insert? w = some workers) : Trans cfg mode s { s with workers }
  | go {s : State} {w : Worker} {phase : Phase} (mem : w ∈ s.workers)
      (goes : Goes cfg mode s w phase) : Trans cfg mode s (s.move w.workerId phase)
  | adopt {s : State} {w : Worker} {job : Job} {run : Run} (now : Instant) (mem : w ∈ s.workers)
      (at_ : w.phase = .adopting job run) :
      Trans cfg mode s ((adopt now job run s).move w.workerId .done)
  | mark {s : State} {w : Worker} {job : Job} {run : Run} (now : Instant) (mem : w ∈ s.workers)
      (at_ : w.phase = .locked job run) (counted : mode.counted → Countable s job) :
      Trans cfg mode s
        { ((s.flush job (job.marked now cfg.lease) run (run.marked now job.counted)).move w.workerId
            (.executing (job.marked now cfg.lease) (run.marked now job.counted))) with
          executions := w.runId :: s.executions }
  | finish {s : State} {w : Worker} {job : Job} {run : Run} (now : Instant) (r : NormalizeResult)
      (mem : w ∈ s.workers) (at_ : w.phase = .executing job run) :
      Trans cfg mode s
        ((s.flush job (job.finished now r) run (run.finished now r job.attemptCount)).move
          w.workerId (.releasing job))
  | fail {s : State} {w : Worker} {job : Job} (now : Instant) (code : FailureCode)
      (message : String) (mem : w ∈ s.workers)
      (at_ : (∃ code message, w.phase = .failing job code message) ∨
        ∃ message, w.phase = .raised job message) :
      Trans cfg mode s
        ((s.fail now job.jobId w.runId code message).move w.workerId (.releasing job))
  | retry {s : State} {w : Worker} {loaded job : Job} {run : Run} {row : Outbox} {outbox}
      (f : Job → Job) (hf : ∀ r, (f r).jobId = r.jobId) (g : Run → Run)
      (hg : ∀ r, (g r).runId = r.runId) (mem : w ∈ s.workers) {message : String}
      (at_ : w.phase = .raised loaded message) (jobMem : job ∈ s.jobs)
      (jobId : job.jobId = loaded.jobId) (runMem : run ∈ s.runs) (runId : run.runId = w.runId)
      (left : job.attemptCount < job.maxAttempts) (same : (f job).runId = job.runId)
      (dataset : (f job).datasetKey = job.datasetKey)
      (count : (f job).attemptCount = job.attemptCount)
      (bound : (f job).maxAttempts = job.maxAttempts) (retrying : (f job).status = .retrying)
      (retryingRun : (g run).status = .retrying)
      (carries : Carries row job.jobId (f job).deliveryId)
      (ho : s.outbox.insert? row = some outbox) :
      Trans cfg mode s
        ({ (s.setRun run.runId g hg).setJob job.jobId f hf with outbox }.move w.workerId
          (.releasing loaded))

/-- Any finite sequence of transitions. -/
def Transs (cfg : Config) (mode : Mode) : State → State → Prop := ReflTransGen (Trans cfg mode)

theorem Trans.single {cfg : Config} {mode : Mode} {s t : State} (h : Trans cfg mode s t) :
    Transs cfg mode s t := ReflTransGen.single h

/-! ## Every operation -/

variable {cfg : Config} {mode : Mode} {s t : State}

theorem addOutbox_ok {outboxId jobId runId deliveryId : Uuid} {availableAt now : Instant}
    (h : addOutbox outboxId jobId runId deliveryId availableAt now s = .ok t) :
    ∃ row outbox, Carries row jobId deliveryId ∧ s.outbox.insert? row = some outbox ∧
      t = { s with outbox } := by
  unfold addOutbox at h
  obtain ⟨_, _, h⟩ := ok_bind h
  obtain ⟨outbox, ho, h⟩ := ok_bind h
  exact ⟨_, outbox, ⟨rfl, rfl, rfl⟩, need_ok.mp ho, ok_pure h⟩

theorem redeliver_ok {now availableAt : Instant} {ids : DeliveryIds} {f : Job → Job} {hf}
    {job : Job} (h : redeliver now availableAt ids f hf job s = .ok t) :
    ∃ row outbox, Carries row job.jobId ids.deliveryId ∧ s.outbox.insert? row = some outbox ∧
      (∀ j ∈ s.jobs, j.jobId ≠ job.jobId → j ∈ t.jobs) ∧
      t = { s.setJob job.jobId (fun j => { f j with deliveryId := ids.deliveryId, updatedAt := now })
        (fun j => hf j) with outbox } := by
  obtain ⟨row, outbox, hcarries, hins, rfl⟩ := addOutbox_ok h
  have hkeeps : ∀ j ∈ s.jobs, j.jobId ≠ job.jobId → j ∈ (s.setJob job.jobId
      (fun j => { f j with deliveryId := ids.deliveryId, updatedAt := now }) fun j => hf j).jobs :=
    State.setJob_keeps
  exact ⟨row, outbox, hcarries, hins, hkeeps, rfl⟩

theorem Job.unleased_requeues (job : Job) : Requeues job job.unleased := by
  unfold Job.unleased
  split
  · exact ⟨rfl, rfl, rfl, rfl, rfl, Or.inl rfl⟩
  · rename_i h
    exact ⟨rfl, rfl, rfl, rfl, rfl, Or.inr ⟨rfl, by simpa using h⟩⟩

theorem jobOf_some {runId : Uuid} {job : Job} (h : s.jobOf runId = some job) :
    job ∈ s.jobs ∧ job.runId = runId :=
  ⟨List.mem_of_find?_eq_some h, by simpa using List.find?_some h⟩

theorem jobOf_none {runId : Uuid} (h : s.jobOf runId = none) : ∀ j ∈ s.jobs, j.runId ≠ runId := by
  intro j hj
  simpa using List.find?_eq_none.mp h j hj

theorem createNormalizationJob_transs {now : Instant} {jobId : Uuid} {ids : DeliveryIds}
    {runId : Uuid} {availableAt : Option Instant}
    (h : createNormalizationJob cfg now jobId ids runId availableAt s = .ok t) :
    Transs cfg mode s t := by
  unfold createNormalizationJob at h
  obtain ⟨run, hrun, h⟩ := ok_bind h
  obtain ⟨_, hnone, h⟩ := ok_bind h
  obtain ⟨jobs, hjobs, h⟩ := ok_bind h
  obtain ⟨row, outbox, hcarries, hins, rfl⟩ := addOutbox_ok h
  have hnone : s.jobOf runId = none := by simpa using ensure_ok.mp hnone
  have howner : ∃ r ∈ s.runs, r.runId = runId := ⟨run, Table.find?_eq_some.mp (need_ok.mp hrun)⟩
  exact Trans.single (.job (jobOf_none hnone) howner rfl rfl rfl hcarries (need_ok.mp hjobs) hins)

/-! The reconcilers lock every selected row before they write the first. -/

/-- The rows of a loop that are still to come are as they were selected. -/
def Pending (s : State) (rows : List (Job × DeliveryIds)) : Prop :=
  (∀ row ∈ rows, row.1 ∈ s.jobs) ∧ (rows.map (·.1.jobId)).Nodup

theorem pending_selected (ids : Nat → DeliveryIds) (p : Job → Bool) :
    Pending s (selected ids p s) := by
  have hfst : (selected ids p s).map (·.1) = s.jobs.rows.filter p := by
    simp only [selected, List.map_map]
    exact List.zipIdx_map_fst 0 _
  refine ⟨fun row hrow => ?_, ?_⟩
  · have hmem : row.1 ∈ s.jobs.rows.filter p := hfst ▸ List.mem_map_of_mem hrow
    exact (List.mem_filter.mp hmem).1
  · have hmap : (selected ids p s).map (·.1.jobId) = (s.jobs.rows.filter p).map Job.jobId := by
      rw [← hfst, List.map_map]
      rfl
    rw [hmap]
    exact s.jobs.nodup.sublist (List.filter_sublist.map _)

theorem mem_selected {ids : Nat → DeliveryIds} {p : Job → Bool} {row : Job × DeliveryIds}
    (h : row ∈ selected ids p s) : row.1 ∈ s.jobs ∧ p row.1 = true := by
  simp only [selected, List.mem_map, Prod.exists] at h
  obtain ⟨job, i, hmem, rfl⟩ := h
  exact List.mem_filter.mp (List.fst_mem_of_mem_zipIdx hmem)

/-- Writing one selected row leaves the others. -/
theorem Pending.tail {row : Job × DeliveryIds} {rows : List (Job × DeliveryIds)}
    (h : Pending s (row :: rows))
    (hkeeps : ∀ j ∈ s.jobs, j.jobId ≠ row.1.jobId → j ∈ t.jobs) : Pending t rows := by
  obtain ⟨hmem, hnodup⟩ := h
  simp only [List.map_cons, List.nodup_cons] at hnodup
  refine ⟨fun r hr => hkeeps r.1 (hmem r (List.mem_cons_of_mem _ hr)) fun he => ?_, hnodup.2⟩
  exact hnodup.1 (he ▸ List.mem_map_of_mem (f := (·.1.jobId)) hr)

/-- The loop rule: each selected row is one transition. -/
theorem loop_transs {step : State → Job × DeliveryIds → Except String State}
    (good : Job → Prop)
    (hstep : ∀ s t row, row.1 ∈ s.jobs → good row.1 → step s row = .ok t →
      Transs cfg mode s t ∧ ∀ j ∈ s.jobs, j.jobId ≠ row.1.jobId → j ∈ t.jobs)
    (rows : List (Job × DeliveryIds)) (hrows : Pending s rows) (hgood : ∀ row ∈ rows, good row.1)
    (h : rows.foldlM step s = .ok t) : Transs cfg mode s t := by
  induction rows generalizing s with
  | nil => cases ok_pure h; exact ReflTransGen.refl
  | cons row rows ih =>
    rw [List.foldlM_cons] at h
    obtain ⟨u, hu, h⟩ := ok_bind h
    obtain ⟨htrans, hkeeps⟩ := hstep s u row (hrows.1 row List.mem_cons_self)
      (hgood row List.mem_cons_self) hu
    exact ReflTransGen.trans htrans (ih (hrows.tail hkeeps)
      (fun r hr => hgood r (List.mem_cons_of_mem _ hr)) h)

/-- A selected job may be requeued. -/
def Requeueable (mode : Mode) (job : Job) : Prop :=
  job.status.terminal = false ∧ (mode.counted → job.spare)

theorem replayJob_transs {now : Instant} {row : Job × DeliveryIds} (hmem : row.1 ∈ s.jobs)
    (hgood : Requeueable mode row.1) (h : replayJob now s row = .ok t) :
    Transs cfg mode s t ∧ ∀ j ∈ s.jobs, j.jobId ≠ row.1.jobId → j ∈ t.jobs := by
  have hreq := row.1.unleased_requeues
  unfold replayJob at h
  split at h
  · cases h
    refine ⟨Trans.single (.unlease _ _ hmem hgood.1 ⟨hreq.jobId, hreq.runId, hreq.datasetKey,
      hreq.attemptCount, hreq.maxAttempts, hreq.status⟩ ?_ hgood.2),
      State.setJob_keeps⟩
    show row.1.unleased.deliveryId = row.1.deliveryId
    unfold Job.unleased
    split <;> rfl
  · obtain ⟨o, outbox, hcarries, hins, hkeeps, rfl⟩ := redeliver_ok h
    exact ⟨Trans.single (.redeliver _ _ hmem hgood.1 ⟨hreq.jobId, hreq.runId, hreq.datasetKey,
      hreq.attemptCount, hreq.maxAttempts, hreq.status⟩ hcarries hgood.2 hins), hkeeps⟩

theorem repairJob_transs {now : Instant} {row : Job × DeliveryIds} (hmem : row.1 ∈ s.jobs)
    (hgood : Requeueable mode row.1) (h : repairJob now s row = .ok t) :
    Transs cfg mode s t ∧ ∀ j ∈ s.jobs, j.jobId ≠ row.1.jobId → j ∈ t.jobs := by
  obtain ⟨o, outbox, hcarries, hins, hkeeps, rfl⟩ := redeliver_ok h
  exact ⟨Trans.single (.redeliver _ _ hmem hgood.1 ⟨rfl, rfl, rfl, rfl, rfl, Or.inl rfl⟩ hcarries
    hgood.2 hins), hkeeps⟩

/-- What a promise of the run says of an operation in the state before it. -/
def Op.meets (cfg : Config) (mode : Mode) (s : State) : Op → Prop
  | .tryLock w => mode.fresh → ∀ worker ∈ s.workers, worker.workerId = w →
      ∀ job run, worker.phase = .checked job run → s.lockHeld cfg job.datasetKey = false →
        ¬ Ended s worker.runId
  | .mark w _ => mode.counted → ∀ worker ∈ s.workers, worker.workerId = w →
      ∀ job run, worker.phase = .locked job run → Countable s job
  | .reconcileNonterminalJobs now held _ => mode.counted → ∀ job ∈ s.jobs,
      job.nonterminalSelected now = true → held job.jobId = false → job.spare
  | .reconcileStaleJobs now held _ => mode.counted → ∀ job ∈ s.jobs,
      staleSelected cfg now s job = true → held job.jobId = false → job.spare
  | _ => True

theorem reconcileNonterminalJobs_transs {now : Instant} {held : Uuid → Bool}
    {ids : Nat → DeliveryIds} (hm : (Op.reconcileNonterminalJobs now held ids).meets cfg mode s)
    (h : reconcileNonterminalJobs now held ids s = .ok t) : Transs cfg mode s t := by
  refine loop_transs (Requeueable mode) (fun _ _ _ => replayJob_transs) _
    (pending_selected ids _) (fun row hrow => ?_) h
  obtain ⟨hmem, hsel⟩ := mem_selected hrow
  simp only [Bool.and_eq_true, Bool.not_eq_true'] at hsel
  have hopen : row.1.status.terminal = false := by
    have hsel := hsel.1
    simp only [Job.nonterminalSelected, Bool.and_eq_true, Bool.not_eq_true'] at hsel
    exact hsel.1
  exact ⟨hopen, fun hc => hm hc row.1 hmem hsel.1 hsel.2⟩

theorem reconcileStaleJobs_transs {now : Instant} {held : Uuid → Bool}
    {ids : Nat → DeliveryIds} (hm : (Op.reconcileStaleJobs now held ids).meets cfg mode s)
    (h : reconcileStaleJobs cfg now held ids s = .ok t) : Transs cfg mode s t := by
  refine loop_transs (Requeueable mode) (fun _ _ _ => repairJob_transs) _
    (pending_selected ids _) (fun row hrow => ?_) h
  obtain ⟨hmem, hsel⟩ := mem_selected hrow
  simp only [Bool.and_eq_true, Bool.not_eq_true'] at hsel
  have hopen : row.1.status.terminal = false := by
    have hsel := hsel.1
    simp only [staleSelected, Bool.and_eq_true, Bool.not_eq_true'] at hsel
    exact hsel.1.1
  exact ⟨hopen, fun hc => hm hc row.1 hmem hsel.1 hsel.2⟩

theorem deferForLockContention_transs {now delay : Instant} {ids : DeliveryIds}
    {jobId deliveryId : Uuid}
    (h : deferForLockContention now delay ids jobId deliveryId s = .ok t) :
    Transs cfg mode s t := by
  unfold deferForLockContention at h
  split at h
  · cases h; exact ReflTransGen.refl
  · rename_i job hfind
    obtain ⟨hmem, hid⟩ := Table.find?_eq_some.mp hfind
    split at h
    · cases h; exact ReflTransGen.refl
    · rename_i hgate
      split at h
      · cases h; exact ReflTransGen.refl
      · obtain ⟨row, outbox, hcarries, hins, hkeeps, rfl⟩ := redeliver_ok h
        simp only [Bool.or_eq_true, not_or, beq_iff_eq, Bool.not_eq_true] at hgate
        exact Trans.single (.redeliver _ _ hmem hgate.1.1 ⟨rfl, rfl, rfl, rfl, rfl, Or.inl rfl⟩
          hcarries (fun _ hp => absurd hp hgate.1.2) hins)

theorem settled_transs {x : Except String State}
    (h : ∀ t, x = .ok t → Transs cfg mode s t) : Transs cfg mode s (settled s x) := by
  cases x with
  | error => exact ReflTransGen.refl
  | ok t => exact h t rfl

/-! ## Workers -/

theorem move_moves {w : Worker} {phase : Phase} (hmem : w ∈ s.workers)
    (hgoes : Goes cfg mode s w phase) : Transs cfg mode s (s.move w.workerId phase) :=
  Trans.single (.go hmem hgoes)

theorem execute_transs {w : Worker} {job : Job} {run : Run} {now : Instant} {inputs : Inputs}
    {processed : Processed} (hmem : w ∈ s.workers) (hat : w.phase = .executing job run) :
    Transs cfg mode s (execute now inputs processed w job run s) := by
  unfold execute
  split
  · exact move_moves hmem (.fail hat _ _)
  · split
    · exact move_moves hmem (.fail hat _ _)
    · exact move_moves hmem (.raise hat _)
    · exact Trans.single (.finish now _ hmem hat)

theorem markPermanentFailure_transs {w : Worker} {job : Job} {now : Instant} {code : FailureCode}
    {message : String} (hmem : w ∈ s.workers) (hat : w.phase = .failing job code message) :
    Transs cfg mode s
      ((markPermanentFailure now job.jobId w.runId code message s).move w.workerId
        (.releasing job)) := by
  unfold markPermanentFailure
  split
  · exact Trans.single (.fail now code message hmem (Or.inl ⟨code, message, hat⟩))
  · exact move_moves hmem (.refused (Or.inl ⟨code, message, hat⟩))

theorem scheduleRetry_transs {w : Worker} {job : Job} {now jitter : Instant} {ids : DeliveryIds}
    {message : String} (hmem : w ∈ s.workers) (hat : w.phase = .raised job message) :
    Transs cfg mode s
      ((settled s (scheduleRetry cfg now jitter ids job.jobId w.runId message s)).move w.workerId
        (.releasing job)) := by
  have hrefused : Transs cfg mode s (s.move w.workerId (.releasing job)) :=
    move_moves hmem (.refused (Or.inr ⟨message, hat⟩))
  cases hx : scheduleRetry cfg now jitter ids job.jobId w.runId message s with
  | error => exact hrefused
  | ok t =>
    unfold scheduleRetry at hx
    split at hx
    · rename_i j run hj hr
      obtain ⟨hjmem, hjid⟩ := Table.find?_eq_some.mp hj
      obtain ⟨hrmem, hrid⟩ := Table.find?_eq_some.mp hr
      split at hx
      · cases hx
        exact Trans.single (.fail now .retryExhausted message hmem (Or.inr ⟨message, hat⟩))
      · rename_i hleft
        obtain ⟨row, outbox, hcarries, hins, hkeeps, rfl⟩ := redeliver_ok hx
        exact Trans.single (.retry _ _ _ _ hmem hat hjmem hjid hrmem hrid (by omega) rfl rfl rfl rfl
          rfl rfl hcarries hins)
    · cases hx
      exact hrefused

/-- A refused or finished deferral and the worker's return. -/
theorem defer_transs {w : Worker} {job : Job} {now delay : Instant} {ids : DeliveryIds}
    (hmem : w ∈ s.workers) :
    Transs cfg mode s
      ((settled s (deferForLockContention now delay ids job.jobId w.deliveryId s)).move w.workerId
        .done) := by
  have hworkers : ∀ t, deferForLockContention now delay ids job.jobId w.deliveryId s = .ok t →
      t.workers = s.workers := by
    intro t h
    unfold deferForLockContention at h
    split at h
    · cases h; rfl
    · split at h
      · cases h; rfl
      · split at h
        · cases h; rfl
        · obtain ⟨_, _, _, _, _, rfl⟩ := redeliver_ok h
          rfl
  cases hx : deferForLockContention now delay ids job.jobId w.deliveryId s with
  | error => exact move_moves hmem .stop
  | ok t =>
    refine ReflTransGen.trans (deferForLockContention_transs hx) (move_moves ?_ .stop)
    rw [hworkers t hx]
    exact hmem

theorem workerStep_transs {w : Worker} {op : Op} (hmem : w ∈ s.workers)
    (hop : op.worker = some w.workerId) (hm : op.meets cfg mode s) :
    Transs cfg mode s (workerStep cfg w op s) := by
  unfold workerStep
  split
  · exact move_moves hmem (.readJob ‹_›)
  · exact move_moves hmem (.check ‹_›)
  · exact Trans.single (.adopt _ hmem ‹_›)
  · rename_i id job run hat
    split
    · exact move_moves hmem (.contend hat)
    · rename_i hfree
      have hid : w.workerId = id := (Option.some.inj hop).symm
      have hfree : s.lockHeld cfg job.datasetKey = false := by simpa using hfree
      exact move_moves hmem (.lock hat hfree fun hf => hm hf w hmem hid job run hat hfree)
  · exact defer_transs hmem
  · rename_i id now job run hat
    have hid : w.workerId = id := (Option.some.inj hop).symm
    exact Trans.single (.mark now hmem hat fun hc => hm hc w hmem hid job run hat)
  · exact move_moves hmem (.abort ‹_› _)
  · exact execute_transs hmem ‹_›
  · exact markPermanentFailure_transs hmem ‹_›
  · exact scheduleRetry_transs hmem ‹_›
  · exact move_moves hmem .stop
  · exact move_moves hmem .stop
  · exact ReflTransGen.refl

/-! ## The dispatcher -/

theorem outbox_transs {p : Outbox → Bool} {f : Outbox → Outbox} {dispatches : List Dispatch}
    (hf : ∀ o, (f o).outboxId = o.outboxId) (keeps : ∀ o, (f o).jobId = o.jobId ∧ (f o).deliveryId = o.deliveryId) :
    Transs cfg mode s { s with outbox := s.outbox.update p f hf, dispatches } :=
  ReflTransGen.head (.broker dispatches s.sent) (Trans.single (.outbox p f hf keeps))

theorem setOutbox_transs {outboxId : Uuid} {f : Outbox → Outbox} {hf} {dispatches : List Dispatch}
    (keeps : ∀ o, (f o).jobId = o.jobId ∧ (f o).deliveryId = o.deliveryId) :
    Transs cfg mode s { s.setOutbox outboxId f hf with dispatches } := outbox_transs hf keeps

theorem markOutboxPublishFailure_transs {now : Instant} {d : Dispatch}
    (h : markOutboxPublishFailure now d s = .ok t) : Transs cfg mode s t := by
  unfold markOutboxPublishFailure at h
  obtain ⟨error, _, h⟩ := ok_bind h
  obtain ⟨_, _, h⟩ := ok_bind h
  split at h
  · cases ok_pure h
    exact Trans.single (.broker _ s.sent)
  · obtain ⟨_, _, h⟩ := ok_bind h
    cases ok_pure h
    exact setOutbox_transs fun _ => ⟨rfl, rfl⟩

theorem markOutboxPublished_transs {now : Instant} {d : Dispatch} :
    Transs cfg mode s (markOutboxPublished now d s) := by
  unfold markOutboxPublished
  split
  · exact setOutbox_transs fun _ => ⟨rfl, rfl⟩
  · exact ReflTransGen.refl

theorem publish_transs {d : Dispatch} {accepted : Bool} {error : Option String} :
    Transs cfg mode s (publish d accepted error s) := by
  unfold publish
  split
  · exact Trans.single (.broker _ _)
  · exact ReflTransGen.refl

/-- **Refinement.** An operation that keeps the promises of the mode is a sequence of
transitions. -/
theorem apply_refines (op : Op) (hm : op.meets cfg mode s) : Transs cfg mode s (apply cfg op s) := by
  have hworker : ∀ id, op.worker = some id → ∀ t, (s.workers.find? id = none → t = s) →
      (∀ w, s.workers.find? id = some w → t = workerStep cfg w op s) → Transs cfg mode s t := by
    intro id hid t hnone hsome
    cases hfind : s.workers.find? id with
    | none =>
      rw [hnone hfind]
      exact ReflTransGen.refl
    | some w =>
      rw [hsome w hfind]
      obtain ⟨hmem, rfl⟩ := Table.find?_eq_some.mp hfind
      exact workerStep_transs hmem hid hm
  cases op with
  | createRun runId datasetKey =>
    refine settled_transs fun t h => ?_
    unfold createRun at h
    obtain ⟨runs, hr, h⟩ := ok_bind h
    cases ok_pure h
    exact Trans.single (.run (need_ok.mp hr))
  | createNormalizationJob => exact settled_transs fun t h => createNormalizationJob_transs h
  | reconcileNonterminalJobs => exact settled_transs fun t h => reconcileNonterminalJobs_transs hm h
  | reconcileStaleJobs => exact settled_transs fun t h => reconcileStaleJobs_transs hm h
  | claimOutboxBatch now held =>
    exact outbox_transs (by intro _; rfl) fun _ => ⟨rfl, rfl⟩
  | publish => exact publish_transs
  | markOutboxPublished => exact markOutboxPublished_transs
  | markOutboxPublishFailure => exact settled_transs fun t h => markOutboxPublishFailure_transs h
  | dispatcherCrash => exact Trans.single (.broker _ s.sent)
  | receive workerId runId deliveryId =>
    refine settled_transs fun t h => ?_
    unfold receive at h
    obtain ⟨_, _, h⟩ := ok_bind h
    obtain ⟨workers, hw, h⟩ := ok_bind h
    cases ok_pure h
    exact Trans.single (.receive rfl (need_ok.mp hw))
  | readJob | readRun | adopt | tryLock | deferForLockContention | mark | abort | execute
  | markPermanentFailure | scheduleRetry | release | crash =>
    refine hworker _ rfl _ (fun h => ?_) fun w h => ?_
    · simp only [apply, h]
    · simp only [apply, h]

/-- The invariant rule: what every transition keeps holds in every state of a run
that keeps the promises. -/
theorem steps_inv {I : State → Prop} (ht : ∀ s t, Trans cfg mode s t → I s → I t)
    (h : StepsIf (apply cfg) (fun s op => op.meets cfg mode s) s t) (hs : I s) : I t := by
  refine h.inv (fun u op hu hok => ?_) hs
  have hop : ∀ v, Transs cfg mode u v → I v := by
    intro v huv
    induction huv with
    | refl => exact hu
    | tail _ hstep ih => exact ht _ _ hstep ih
  exact hop _ (apply_refines op hok)

/-- The same for a relation along the run. -/
theorem steps_rel {I : State → Prop} {R : State → State → Prop} (hr : ∀ s, R s s)
    (htrans : ∀ s t u, R s t → R t u → R s u) (hI : ∀ s t, Trans cfg mode s t → I s → I t)
    (ht : ∀ s t, Trans cfg mode s t → I s → R s t)
    (h : StepsIf (apply cfg) (fun s op => op.meets cfg mode s) s t) (hs : I s) : R s t := by
  have hop : ∀ u v, Transs cfg mode u v → I u → I v ∧ R u v := by
    intro u v huv hu
    induction huv with
    | refl => exact ⟨hu, hr u⟩
    | tail _ hstep ih => exact ⟨hI _ _ hstep ih.1, htrans _ _ _ ih.2 (ht _ _ hstep ih.1)⟩
  exact h.rel (I := I) hr htrans (fun u op hu hok => (hop _ _ (apply_refines op hok) hu).1)
    (fun u op hu hok => (hop _ _ (apply_refines op hok) hu).2) hs

end FinDB.Normalization
