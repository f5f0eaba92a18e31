import FinDB.Normalization.Transitions

/-! # What a transition writes

The tables one at a time: a transition leaves the jobs, inserts one, or rewrites
the row of one id; the same for runs; and at most one worker goes on. The rows in
a worker's session are of its own run, and their row in the table has kept its
ids. -/
namespace FinDB.Normalization
open FinDB.Lib Relation

variable {cfg : Config} {mode : Mode} {s t : State}

/-! ## The writes -/

/-- The phase of the worker after a transition. -/
def StandsAt (t : State) (w : Worker) (phase : Phase) : Prop :=
  ∀ v ∈ t.workers, v.workerId = w.workerId → v.phase = phase

/-- How the row of one job is rewritten. -/
inductive JobWrite (cfg : Config) (mode : Mode) (s t : State) : Uuid → (Job → Job) → Prop where
  | requeue {job : Job} {f : Job → Job} (mem : job ∈ s.jobs) (waiting : job.status.terminal = false)
      (requeues : Requeues job (f job)) (spare : mode.counted → job.spare)
      (quiet : t.executions = s.executions) :
      JobWrite cfg mode s t job.jobId f
  | adopt {w : Worker} {job : Job} {run : Run} (now : Instant) (mem : w ∈ s.workers)
      (at_ : w.phase = .adopting job run) (quiet : t.executions = s.executions) :
      JobWrite cfg mode s t job.jobId (Job.flush job { job with
        status := run.status, completedAt := some (run.completedAt.getD now), updatedAt := now })
  | mark {w : Worker} {job : Job} {run : Run} (now : Instant) (mem : w ∈ s.workers)
      (at_ : w.phase = .locked job run) (counted : mode.counted → Countable s job)
      (begun : t.executions = w.runId :: s.executions) :
      JobWrite cfg mode s t job.jobId (Job.flush job (job.marked now cfg.lease))
  | finish {w : Worker} {job : Job} {run : Run} (now : Instant) (r : NormalizeResult)
      (mem : w ∈ s.workers) (at_ : w.phase = .executing job run)
      (left : StandsAt t w (.releasing job)) (quiet : t.executions = s.executions) :
      JobWrite cfg mode s t job.jobId (Job.flush job (job.finished now r))
  | fail {w : Worker} {job : Job} (now : Instant) (message : String) (mem : w ∈ s.workers)
      (at_ : (∃ code message, w.phase = .failing job code message) ∨
        ∃ message, w.phase = .raised job message) (left : StandsAt t w (.releasing job))
      (quiet : t.executions = s.executions) :
      JobWrite cfg mode s t job.jobId (Job.failed now message)
  | retry {w : Worker} {loaded job : Job} {message : String} {f : Job → Job} (mem : w ∈ s.workers)
      (at_ : w.phase = .raised loaded message) (jobMem : job ∈ s.jobs)
      (jobId : job.jobId = loaded.jobId) (left : job.attemptCount < job.maxAttempts)
      (same : (f job).runId = job.runId) (dataset : (f job).datasetKey = job.datasetKey)
      (count : (f job).attemptCount = job.attemptCount)
      (bound : (f job).maxAttempts = job.maxAttempts) (retrying : (f job).status = .retrying)
      (quiet : t.executions = s.executions) :
      JobWrite cfg mode s t job.jobId f

/-- How the row of one run is rewritten. -/
inductive RunWrite (s t : State) : Uuid → (Run → Run) → Prop where
  | mark {w : Worker} {job : Job} {run : Run} (now : Instant) (count : Nat) (mem : w ∈ s.workers)
      (at_ : w.phase = .locked job run) :
      RunWrite s t run.runId (Run.flush run (run.marked now count))
  | finish {w : Worker} {job : Job} {run : Run} (now : Instant) (r : NormalizeResult)
      (mem : w ∈ s.workers) (at_ : w.phase = .executing job run)
      (left : StandsAt t w (.releasing job)) :
      RunWrite s t run.runId (Run.flush run (run.finished now r job.attemptCount))
  | fail {w : Worker} {job : Job} (now : Instant) (code : FailureCode) (message : String)
      (mem : w ∈ s.workers)
      (at_ : (∃ code message, w.phase = .failing job code message) ∨
        ∃ message, w.phase = .raised job message) (left : StandsAt t w (.releasing job)) :
      RunWrite s t w.runId (Run.failed now code message)
  | retry {w : Worker} {job : Job} {message : String} {run : Run} {g : Run → Run}
      (mem : w ∈ s.workers) (at_ : w.phase = .raised job message) (runMem : run ∈ s.runs)
      (runId : run.runId = w.runId) (retrying : (g run).status = .retrying) :
      RunWrite s t run.runId g

/-- How a worker goes on. -/
inductive Moves (cfg : Config) (mode : Mode) (s : State) (w : Worker) : Phase → Prop where
  | go {phase : Phase} (goes : Goes cfg mode s w phase) : Moves cfg mode s w phase
  | mark {job : Job} {run : Run} (now : Instant) (at_ : w.phase = .locked job run) :
      Moves cfg mode s w (.executing (job.marked now cfg.lease) (run.marked now job.counted))
  | finish {job : Job} {run : Run} (at_ : w.phase = .executing job run) :
      Moves cfg mode s w (.releasing job)

theorem standsAt_move {u : State} {w : Worker} {phase : Phase} :
    StandsAt (u.move w.workerId phase) w phase := by
  intro v hv hid
  rcases State.mem_move.mp hv with ⟨_, hne⟩ | ⟨x, _, _, rfl⟩
  · exact absurd hid hne
  · rfl

/-- A new job is queued and unused, and its run has no other. -/
structure NewJob (cfg : Config) (s : State) (job : Job) : Prop where
  fresh : ∀ j ∈ s.jobs, j.runId ≠ job.runId
  owner : ∃ r ∈ s.runs, r.runId = job.runId
  queued : job.status = .queued
  unused : job.attemptCount = 0
  bound : job.maxAttempts = cfg.maxAttempts

theorem trans_jobs (h : Trans cfg mode s t) :
    (t.jobs = s.jobs ∧ t.executions = s.executions) ∨
    (∃ job, NewJob cfg s job ∧ s.jobs.insert? job = some t.jobs ∧ t.executions = s.executions) ∨
    ∃ jobId f hf, JobWrite cfg mode s t jobId f ∧ t.jobs = s.jobs.modify jobId f hf := by
  cases h with
  | run | outbox | broker | receive | go => exact Or.inl ⟨rfl, rfl⟩
  | job fresh owner queued unused bound _ hj =>
    exact Or.inr (Or.inl ⟨_, ⟨fresh, owner, queued, unused, bound⟩, hj, rfl⟩)
  | unlease f hf mem waiting requeues _ spare =>
    exact Or.inr (Or.inr ⟨_, f, hf, .requeue mem waiting requeues spare rfl, rfl⟩)
  | redeliver f hf mem waiting requeues _ spare =>
    exact Or.inr (Or.inr ⟨_, f, hf, .requeue mem waiting requeues spare rfl, rfl⟩)
  | adopt now mem at_ =>
    exact Or.inr (Or.inr ⟨_, _, (by intro _; rfl), .adopt now mem at_ rfl, rfl⟩)
  | mark now mem at_ counted =>
    exact Or.inr (Or.inr ⟨_, _, (by intro _; rfl), .mark now mem at_ counted rfl, rfl⟩)
  | finish now r mem at_ =>
    exact Or.inr (Or.inr ⟨_, _, (by intro _; rfl), .finish now r mem at_ standsAt_move rfl, rfl⟩)
  | fail now code message mem at_ =>
    exact Or.inr (Or.inr ⟨_, _, (by intro _; rfl), .fail now message mem at_ standsAt_move rfl, rfl⟩)
  | retry f hf g hg mem at_ jobMem jobId _ _ left same dataset count bound retrying =>
    exact Or.inr (Or.inr ⟨_, f, hf,
      .retry mem at_ jobMem jobId left same dataset count bound retrying rfl, rfl⟩)

theorem trans_runs (h : Trans cfg mode s t) :
    t.runs = s.runs ∨
    (∃ runId datasetKey, s.runs.insert? (newRun runId datasetKey) = some t.runs) ∨
    ∃ runId f hf, RunWrite s t runId f ∧ t.runs = s.runs.modify runId f hf := by
  cases h with
  | job | unlease | redeliver | outbox | broker | receive | go | adopt => exact Or.inl rfl
  | run hr => exact Or.inr (Or.inl ⟨_, _, hr⟩)
  | mark now mem at_ =>
    exact Or.inr (Or.inr ⟨_, _, (by intro _; rfl), .mark now _ mem at_, rfl⟩)
  | finish now r mem at_ =>
    exact Or.inr (Or.inr ⟨_, _, (by intro _; rfl), .finish now r mem at_ standsAt_move, rfl⟩)
  | fail now code message mem at_ =>
    exact Or.inr (Or.inr ⟨_, _, (by intro _; rfl), .fail now code message mem at_ standsAt_move, rfl⟩)
  | retry f hf g hg mem at_ _ _ runMem runId _ _ _ _ _ _ retrying =>
    exact Or.inr (Or.inr ⟨_, g, hg, .retry mem at_ runMem runId retrying, rfl⟩)

theorem trans_workers (h : Trans cfg mode s t) :
    t.workers = s.workers ∨
    (∃ w : Worker, w.phase = .received ∧ s.workers.insert? w = some t.workers) ∨
    ∃ w ∈ s.workers, ∃ phase, Moves cfg mode s w phase ∧
      t.workers = s.workers.modify w.workerId ({ · with phase }) := by
  cases h with
  | run | job | unlease | redeliver | outbox | broker => exact Or.inl rfl
  | receive at_ hw => exact Or.inr (Or.inl ⟨_, at_, hw⟩)
  | go mem goes => exact Or.inr (Or.inr ⟨_, mem, _, .go goes, rfl⟩)
  | adopt now mem at_ => exact Or.inr (Or.inr ⟨_, mem, _, .go .stop, rfl⟩)
  | mark now mem at_ => exact Or.inr (Or.inr ⟨_, mem, _, .mark now at_, rfl⟩)
  | finish now r mem at_ => exact Or.inr (Or.inr ⟨_, mem, _, .finish at_, rfl⟩)
  | fail now code message mem at_ => exact Or.inr (Or.inr ⟨_, mem, _, .go (.refused at_), rfl⟩)
  | retry f hf g hg mem at_ =>
    exact Or.inr (Or.inr ⟨_, mem, _, .go (.refused (Or.inr ⟨_, at_⟩)), rfl⟩)

/-- The workers after a transition, one at a time. -/
theorem trans_worker (h : Trans cfg mode s t) {w' : Worker} (hw' : w' ∈ t.workers) :
    w' ∈ s.workers ∨ w'.phase = .received ∨
      ∃ w ∈ s.workers, ∃ phase, Moves cfg mode s w phase ∧ w' = { w with phase } := by
  rcases trans_workers h with hsame | ⟨w, hw, hins⟩ | ⟨w, hw, phase, hmoves, hmod⟩
  · exact Or.inl (hsame ▸ hw')
  · rcases (Table.mem_insert? hins).mp hw' with hold | rfl
    · exact Or.inl hold
    · exact Or.inr (Or.inl hw)
  · rw [hmod, Table.mem_modify_row (by intro _; rfl) hw] at hw'
    rcases hw' with hold | rfl
    · exact Or.inl hold.1
    · exact Or.inr (Or.inr ⟨w, hw, phase, hmoves, rfl⟩)

/-! ## The identity of a job -/

/-- The columns no write touches. -/
structure Same (job job' : Job) : Prop where
  jobId : job'.jobId = job.jobId
  runId : job'.runId = job.runId
  datasetKey : job'.datasetKey = job.datasetKey
  maxAttempts : job'.maxAttempts = job.maxAttempts

theorem Same.refl (job : Job) : Same job job := ⟨rfl, rfl, rfl, rfl⟩

theorem Same.trans {job job' job'' : Job} (h : Same job job') (h' : Same job' job'') :
    Same job job'' :=
  ⟨h'.jobId.trans h.jobId, h'.runId.trans h.runId, h'.datasetKey.trans h.datasetKey,
    h'.maxAttempts.trans h.maxAttempts⟩

@[simp] theorem dirty_self {α : Type} [DecidableEq α] (loaded current : α) :
    dirty loaded loaded current = current := if_pos rfl

theorem dirty_of_ne {α : Type} [DecidableEq α] {loaded new current : α} (h : new ≠ loaded) :
    dirty loaded new current = new := if_neg h

theorem flush_same {loaded new : Job} (h : new.maxAttempts = loaded.maxAttempts) (job : Job) :
    Same job (Job.flush loaded new job) :=
  ⟨rfl, rfl, rfl, by simp [Job.flush, h]⟩

theorem JobWrite.same {jobId : Uuid} {f : Job → Job} (h : JobWrite cfg mode s t jobId f)
    (hf : ∀ j, (f j).jobId = j.jobId) {j : Job} (hj : j ∈ s.jobs) (hid : j.jobId = jobId) :
    Same j (f j) := by
  cases h with
  | requeue mem _ requeues =>
    cases Table.eq_of_key hj mem hid
    exact ⟨requeues.jobId, requeues.runId, requeues.datasetKey, requeues.maxAttempts⟩
  | adopt | mark | finish =>
    refine flush_same ?_ j
    rfl
  | fail => exact ⟨rfl, rfl, rfl, rfl⟩
  | retry _ _ jobMem _ _ same dataset _ bound =>
    cases Table.eq_of_key hj jobMem hid
    exact ⟨hf j, same, dataset, bound⟩

/-- The jobs after a transition, one at a time. -/
theorem trans_job (h : Trans cfg mode s t) {j' : Job} (hj' : j' ∈ t.jobs) :
    (j' ∈ s.jobs ∧ (t.executions = s.executions ∨ ∃ jobId f, JobWrite cfg mode s t jobId f ∧
      j'.jobId ≠ jobId)) ∨
    (NewJob cfg s j' ∧ t.executions = s.executions) ∨
    ∃ j ∈ s.jobs, ∃ f, JobWrite cfg mode s t j.jobId f ∧ j' = f j ∧ Same j j' := by
  rcases trans_jobs h with ⟨hsame, hquiet⟩ | ⟨job, hnew, hins, hquiet⟩ | ⟨id, f, hf, hwrite, hmod⟩
  · exact Or.inl ⟨hsame ▸ hj', Or.inl hquiet⟩
  · rcases (Table.mem_insert? hins).mp hj' with hold | rfl
    · exact Or.inl ⟨hold, Or.inl hquiet⟩
    · exact Or.inr (Or.inl ⟨hnew, hquiet⟩)
  · rw [hmod, Table.mem_modify] at hj'
    rcases hj' with ⟨hold, hne⟩ | ⟨j, hj, rfl, rfl⟩
    · exact Or.inl ⟨hold, Or.inr ⟨id, f, hwrite, hne⟩⟩
    · exact Or.inr (Or.inr ⟨j, hj, f, hwrite, rfl, hwrite.same hf hj rfl⟩)

/-- A row is still there, as itself or rewritten. -/
theorem trans_keepsJob (h : Trans cfg mode s t) {j : Job} (hj : j ∈ s.jobs) :
    ∃ j' ∈ t.jobs, Same j j' := by
  rcases trans_jobs h with ⟨hsame, _⟩ | ⟨job, _, hins, _⟩ | ⟨id, f, hf, hwrite, hmod⟩
  · exact ⟨j, hsame ▸ hj, Same.refl j⟩
  · exact ⟨j, (Table.mem_insert? hins).mpr (Or.inl hj), Same.refl j⟩
  · rw [hmod]
    by_cases hid : j.jobId = id
    · exact ⟨f j, Table.mem_modify.mpr (Or.inr ⟨j, hj, hid, rfl⟩), hwrite.same hf hj hid⟩
    · exact ⟨j, Table.mem_modify.mpr (Or.inl ⟨hj, hid⟩), Same.refl j⟩

/-! ## Sessions -/

/-- The job a worker has loaded. -/
def Phase.job : Phase → Option Job
  | .readJob job => job
  | .adopting job _ | .checked job _ | .contended job | .locked job _ | .executing job _
  | .failing job _ _ | .raised job _ | .releasing job => some job
  | .received | .done => none

/-- The run a worker has loaded and still writes. -/
def Phase.run : Phase → Option Run
  | .adopting _ run | .checked _ run | .locked _ run | .executing _ run => some run
  | .received | .readJob _ | .contended _ | .failing _ _ _ | .raised _ _ | .releasing _ | .done =>
    none

/-- The statuses a worker has seen where it stands. -/
def Phase.Seen : Phase → Prop
  | .adopting job run => job.status.terminal = false ∧ run.status.terminal = true
  | .checked job run | .locked job run => job.status.terminal = false ∧ run.status.terminal = false
  | .executing job run => job.status = .processing ∧ run.status = .processing
  | _ => True

/-- A session is about the worker's run, and its job is a row of the table. -/
structure Session (s : State) (w : Worker) : Prop where
  job : ∀ job, w.phase.job = some job → job.runId = w.runId ∧ ∃ j ∈ s.jobs, Same job j
  run : ∀ run, w.phase.run = some run → run.runId = w.runId
  seen : w.phase.Seen

structure Sessions (s : State) : Prop where
  /-- `uq_normalization_job_run`. -/
  unique : ∀ j ∈ s.jobs, ∀ j' ∈ s.jobs, j.runId = j'.runId → j = j'
  session : ∀ w ∈ s.workers, Session s w

theorem phase_holds {phase : Phase} {k : DatasetKey} (h : phase.holds = some k) :
    ∃ job, phase.job = some job ∧ job.datasetKey = k := by
  cases phase <;> simp_all [Phase.holds, Phase.job]

/-- What the checks load is what was read. -/
theorem checkDelivery_session (deliveryId : Uuid) (job? : Option Job) (run? : Option Run) :
    ((checkDelivery deliveryId job? run?).job = none ∨
      (checkDelivery deliveryId job? run?).job = job?) ∧
    ((checkDelivery deliveryId job? run?).run = none ∨
      (checkDelivery deliveryId job? run?).run = run?) ∧
    (checkDelivery deliveryId job? run?).Seen := by
  unfold checkDelivery
  split
  · split
    · split
      · exact ⟨Or.inl rfl, Or.inl rfl, trivial⟩
      · rename_i hor hnot
        simp only [Bool.or_eq_true] at hor
        exact ⟨Or.inr rfl, Or.inr rfl, by simpa using hnot, hor.resolve_right hnot⟩
    · rename_i hor
      simp only [Bool.or_eq_true, not_or, Bool.not_eq_true] at hor
      split
      · exact ⟨Or.inl rfl, Or.inl rfl, trivial⟩
      · exact ⟨Or.inr rfl, Or.inr rfl, hor.2, hor.1⟩
  · exact ⟨Or.inl rfl, Or.inl rfl, trivial⟩

/-- A session that keeps at most the job it had. -/
theorem Session.keepsJob {w : Worker} {phase : Phase} (hw : Session s w)
    (hjob : phase.job = none ∨ phase.job = w.phase.job) (hrun : phase.run = none)
    (hseen : phase.Seen) : Session s { w with phase } := by
  refine ⟨fun job h => ?_, fun run h => ?_, hseen⟩
  · rcases hjob with hnone | hsame
    · rw [show phase.job = none from hnone] at h
      cases h
    · exact hw.job job (hsame.symm.trans h)
  · rw [show phase.run = none from hrun] at h
    cases h

theorem goes_session {w : Worker} {phase : Phase} (hw : Session s w)
    (h : Goes cfg mode s w phase) : Session s { w with phase } := by
  cases h with
  | readJob at_ =>
    refine ⟨fun job hjob => ?_, fun run hrun => (by cases hrun), trivial⟩
    obtain ⟨hmem, hrun⟩ := jobOf_some hjob
    exact ⟨hrun, job, hmem, Same.refl job⟩
  | @check job? at_ =>
    obtain ⟨hjob, hrun, hseen⟩ := checkDelivery_session w.deliveryId job? (s.runs.find? w.runId)
    refine ⟨fun job h => ?_, fun run h => ?_, hseen⟩
    · rcases hjob with hnone | hsame
      · cases hnone.symm.trans h
      · exact hw.job job (by rw [at_]; exact hsame.symm.trans h)
    · rcases hrun with hnone | hsame
      · cases hnone.symm.trans h
      · exact (Table.find?_eq_some.mp (hsame.symm.trans h)).2
  | contend at_ | abort at_ | fail at_ | raise at_ =>
    exact hw.keepsJob (Or.inr (by rw [at_]; rfl)) rfl trivial
  | lock at_ =>
    have hseen := hw.seen
    rw [at_] at hseen
    exact ⟨fun job h => hw.job job (by rw [at_]; exact h),
      fun run h => hw.run run (by rw [at_]; exact h), hseen⟩
  | refused at_ =>
    refine hw.keepsJob (Or.inr ?_) rfl trivial
    rcases at_ with ⟨code, message, at_⟩ | ⟨message, at_⟩
    · rw [at_]; rfl
    · rw [at_]; rfl
  | stop => exact hw.keepsJob (Or.inl rfl) rfl trivial

theorem moves_session {w : Worker} {phase : Phase} (hw : Session s w)
    (h : Moves cfg mode s w phase) : Session s { w with phase } := by
  cases h with
  | go goes => exact goes_session hw goes
  | @mark job run now at_ =>
    refine ⟨fun job' h => ?_, fun run' h => ?_, rfl, rfl⟩
    · cases h
      obtain ⟨hrun, j, hj, hsame⟩ := hw.job job (by rw [at_]; rfl)
      exact ⟨hrun, j, hj, hsame.jobId, hsame.runId, hsame.datasetKey, hsame.maxAttempts⟩
    · cases h
      exact hw.run run (by rw [at_]; rfl)
  | finish at_ => exact hw.keepsJob (Or.inr (by rw [at_]; rfl)) rfl trivial

theorem Session.trans {w : Worker} (hw : Session s w) (h : Trans cfg mode s t) : Session t w := by
  refine ⟨fun job hjob => ?_, hw.run, hw.seen⟩
  obtain ⟨hrun, j, hj, hsame⟩ := hw.job job hjob
  obtain ⟨j', hj', hsame'⟩ := trans_keepsJob h hj
  exact ⟨hrun, j', hj', hsame.trans hsame'⟩

/-- One job a run stays one job a run. -/
theorem trans_unique (h : Trans cfg mode s t)
    (hs : ∀ j ∈ s.jobs, ∀ j' ∈ s.jobs, j.runId = j'.runId → j = j') :
    ∀ j ∈ t.jobs, ∀ j' ∈ t.jobs, j.runId = j'.runId → j = j' := by
  rcases trans_jobs h with ⟨hsame, _⟩ | ⟨job, hnew, hins, _⟩ | ⟨id, f, hf, hwrite, hmod⟩
  · rw [hsame]
    exact hs
  · intro j hj j' hj' hrun
    rcases (Table.mem_insert? hins).mp hj with hj | rfl
    · rcases (Table.mem_insert? hins).mp hj' with hj' | rfl
      · exact hs j hj j' hj' hrun
      · exact absurd hrun (hnew.fresh j hj)
    · rcases (Table.mem_insert? hins).mp hj' with hj' | rfl
      · exact absurd hrun.symm (hnew.fresh j' hj')
      · rfl
  · have hfrom : ∀ j' ∈ t.jobs, ∃ j ∈ s.jobs, Same j j' := by
      intro j' hj'
      rw [hmod, Table.mem_modify] at hj'
      rcases hj' with ⟨hold, _⟩ | ⟨j, hj, hid, rfl⟩
      · exact ⟨j', hold, Same.refl j'⟩
      · exact ⟨j, hj, hwrite.same hf hj hid⟩
    intro i' hi' j' hj' hrun
    obtain ⟨i, hi, hsi⟩ := hfrom i' hi'
    obtain ⟨j, hj, hsj⟩ := hfrom j' hj'
    have heq : i = j := hs i hi j hj (by rw [← hsi.runId, ← hsj.runId, hrun])
    exact Table.eq_of_key hi' hj' (by rw [hsi.jobId, hsj.jobId, heq])

theorem trans_sessions (h : Trans cfg mode s t) (hs : Sessions s) : Sessions t := by
  refine ⟨trans_unique h hs.unique, fun w' hw' => ?_⟩
  rcases trans_worker h hw' with hold | hnew | ⟨w, hw, phase, hmoves, rfl⟩
  · exact (hs.session w' hold).trans h
  · refine ⟨fun job hjob => ?_, fun run hrun => ?_, ?_⟩
    · rw [hnew] at hjob
      cases hjob
    · rw [hnew] at hrun
      cases hrun
    · rw [hnew]
      trivial
  · exact (moves_session (hs.session w hw) hmoves).trans h

end FinDB.Normalization
