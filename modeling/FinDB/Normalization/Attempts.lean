import FinDB.Normalization.Terminal

/-! # Attempts

The bound on attempts is looked at in one place, when an execution raises. A job is
requeued elsewhere too, and a worker adds to the count it has read, so the bound
holds in the runs where every execution is counted on the row as it stands and no
job without an attempt left is requeued. -/
namespace FinDB.Normalization
open FinDB.Lib Relation

variable {cfg : Config} {mode : Mode} {s t : State}

/-! ## The budget of a job -/

/-- A waiting job has an attempt left. -/
structure Job.Budgeted (job : Job) : Prop where
  le : job.attemptCount ≤ job.maxAttempts
  left : job.status = .queued ∨ job.status = .retrying → job.attemptCount < job.maxAttempts
  kept : job.status ≠ .cancelled

/-- Outside the terminal statuses a job waits or is processing. -/
theorem Job.Budgeted.open_ {job : Job} (h : job.Budgeted) (hopen : job.status.terminal = false) :
    job.attemptCount < job.maxAttempts ∨ job.status = .processing := by
  cases hst : job.status with
  | queued => exact Or.inl (h.left (Or.inl hst))
  | retrying => exact Or.inl (h.left (Or.inr hst))
  | processing => exact Or.inr rfl
  | completed | completedWithErrors | failed =>
    rw [hst] at hopen
    cases hopen
  | cancelled => exact absurd hst h.kept

theorem budgeted_of_terminal {job : Job} (hle : job.attemptCount ≤ job.maxAttempts)
    (hterm : job.status.terminal = true) : job.Budgeted := by
  refine ⟨hle, ?_, ?_⟩
  · rintro (hst | hst) <;> (rw [hst] at hterm; cases hterm)
  · intro hst
    rw [hst] at hterm
    cases hterm

theorem budgeted_of_processing {job : Job} (hle : job.attemptCount ≤ job.maxAttempts)
    (hst : job.status = .processing) : job.Budgeted := by
  refine ⟨hle, ?_, ?_⟩
  · rintro (h | h) <;> (rw [hst] at h; cases h)
  · rw [hst]
    decide

/-- Counting one more execution of a job that was read as open. -/
theorem counted_le {job : Job} (h : job.Budgeted) (hopen : job.status.terminal = false) :
    job.counted ≤ job.maxAttempts := by
  unfold Job.counted
  split
  · exact h.le
  · rename_i hne
    rcases h.open_ hopen with hlt | hst
    · omega
    · rw [hst] at hne
      exact absurd rfl hne

theorem requeue_budgeted {job job' : Job} (h : job.Budgeted) (hopen : job.status.terminal = false)
    (hspare : job.spare) (hreq : Requeues job job') : job'.Budgeted := by
  have hlt : job.attemptCount < job.maxAttempts := by
    rcases h.open_ hopen with hlt | hst
    · exact hlt
    · exact hspare hst
  refine ⟨?_, fun _ => ?_, ?_⟩
  · rw [hreq.attemptCount, hreq.maxAttempts]
    exact hlt.le
  · rw [hreq.attemptCount, hreq.maxAttempts]
    exact hlt
  · rcases hreq.status with hq | ⟨hsame, _⟩
    · rw [hq]
      decide
    · rw [hsame]
      exact h.kept

/-! ## Every execution is counted -/

structure Budgets (s : State) : Prop where
  sessions : Sessions s
  job : ∀ j ∈ s.jobs, j.Budgeted
  loaded : ∀ w ∈ s.workers, ∀ job, w.phase.job = some job → job.Budgeted
  counted : ∀ j ∈ s.jobs, s.executions.count j.runId = j.attemptCount
  known : ∀ runId ∈ s.executions, ∃ j ∈ s.jobs, j.runId = runId
  owner : ∀ j ∈ s.jobs, ∃ r ∈ s.runs, r.runId = j.runId

/-- A loaded job was read from the table, or is the one that was loaded, or that
one as it was marked. -/
theorem moves_job {w : Worker} {phase : Phase} {job : Job} (h : Moves cfg mode s w phase)
    (hjob : phase.job = some job) :
    job ∈ s.jobs ∨ w.phase.job = some job ∨
      ∃ loaded run now, w.phase = .locked loaded run ∧ job = loaded.marked now cfg.lease := by
  cases h with
  | go goes =>
    cases goes with
    | readJob => exact Or.inl (jobOf_some hjob).1
    | @check job? at_ =>
      rcases (checkDelivery_session w.deliveryId job? (s.runs.find? w.runId)).1 with hnone | hsame
      · cases hnone.symm.trans hjob
      · rw [at_]
        exact Or.inr (Or.inl (hsame.symm.trans hjob))
    | contend at_ | lock at_ | abort at_ | fail at_ | raise at_ =>
      rw [at_]
      exact Or.inr (Or.inl hjob)
    | refused at_ =>
      rw [failing_job at_]
      exact Or.inr (Or.inl hjob)
    | stop => cases hjob
  | mark now at_ =>
    cases hjob
    exact Or.inr (Or.inr ⟨_, _, now, at_, rfl⟩)
  | finish at_ =>
    rw [at_]
    exact Or.inr (Or.inl hjob)

theorem trans_loaded (h : Trans cfg mode s t) (hs : Budgets s) :
    ∀ w ∈ t.workers, ∀ job, w.phase.job = some job → job.Budgeted := by
  intro w' hw' job hjob
  rcases trans_worker h hw' with hold | hnew | ⟨w, hw, phase, hmoves, rfl⟩
  · exact hs.loaded w' hold job hjob
  · rw [hnew] at hjob
    cases hjob
  · rcases moves_job hmoves hjob with hmem | hold | ⟨loaded, run, now, hat, rfl⟩
    · exact hs.job job hmem
    · exact hs.loaded w hw job hold
    · have hseen := (hs.sessions.session w hw).seen
      rw [hat] at hseen
      exact budgeted_of_processing
        (counted_le (hs.loaded w hw loaded (by rw [hat]; rfl)) hseen.1) rfl

/-- Marking on the row as it was read adds one attempt. -/
theorem mark_counts {w : Worker} {job j : Job} {run : Run} {now : Instant} (hs : Budgets s)
    (hw : w ∈ s.workers) (hat : w.phase = .locked job run) (hcount : Countable s job)
    (hj : j ∈ s.jobs) (hid : j.jobId = job.jobId) :
    (Job.flush job (job.marked now cfg.lease) j).attemptCount = j.attemptCount + 1 ∧
      (Job.flush job (job.marked now cfg.lease) j).Budgeted := by
  obtain ⟨hwaits, hcurrent⟩ := hcount
  have hcounted : job.counted = job.attemptCount + 1 := by simp [Job.counted, hwaits]
  have hseen := (hs.sessions.session w hw).seen
  rw [hat] at hseen
  have hle := counted_le (hs.loaded w hw job (by rw [hat]; rfl)) hseen.1
  have hstatus : (Job.flush job (job.marked now cfg.lease) j).status = .processing :=
    dirty_of_ne (Ne.symm hwaits)
  have hnew : (Job.flush job (job.marked now cfg.lease) j).attemptCount = job.counted :=
    dirty_of_ne (by show job.counted ≠ job.attemptCount; omega)
  have hmax : (Job.flush job (job.marked now cfg.lease) j).maxAttempts = job.maxAttempts := by
    obtain ⟨_, i, hi, hsame⟩ := (hs.sessions.session w hw).job job (by rw [hat]; rfl)
    rw [Table.eq_of_key hj hi (hid.trans hsame.jobId.symm)]
    exact (dirty_self _ _).trans hsame.maxAttempts
  refine ⟨by rw [hnew, hcounted, hcurrent j hj hid], budgeted_of_processing ?_ hstatus⟩
  rw [hnew, hmax]
  exact hle

/-- A row is rewritten within its budget. -/
theorem JobWrite.budgeted {jobId : Uuid} {f : Job → Job} (hm : mode.counted)
    (h : JobWrite cfg mode s t jobId f) (hs : Budgets s) {j : Job} (hj : j ∈ s.jobs)
    (hid : j.jobId = jobId) : (f j).Budgeted := by
  have hjob := hs.job j hj
  cases h with
  | requeue mem waiting requeues spare =>
    cases Table.eq_of_key hj mem hid
    exact requeue_budgeted hjob waiting (spare hm) requeues
  | @adopt w job run now mem at_ =>
    have hseen := (hs.sessions.session w mem).seen
    rw [at_] at hseen
    have hne : run.status ≠ job.status := by
      intro he
      have hterm := hseen.2
      rw [he, hseen.1] at hterm
      cases hterm
    refine budgeted_of_terminal (by simpa [Job.flush] using hjob.le) ?_
    exact (congrArg RunStatus.terminal (dirty_of_ne hne)).trans hseen.2
  | @mark w job run now mem at_ counted => exact (mark_counts hs mem at_ (counted hm) hj hid).2
  | @finish w job run now r mem at_ =>
    have hseen := (hs.sessions.session w mem).seen
    rw [at_] at hseen
    have hne : r.status ≠ job.status := by
      intro he
      have hterm := r.status_terminal
      rw [he, hseen.1] at hterm
      cases hterm
    refine budgeted_of_terminal (by simpa [Job.flush, Job.finished] using hjob.le) ?_
    exact (congrArg RunStatus.terminal (dirty_of_ne hne)).trans r.status_terminal
  | fail => exact budgeted_of_terminal hjob.le rfl
  | @retry w loaded job message f mem at_ jobMem jobId left same dataset count bound retrying =>
    cases Table.eq_of_key hj jobMem hid
    refine ⟨?_, fun _ => ?_, ?_⟩
    · rw [count, bound]
      exact hjob.le
    · rw [count, bound]
      exact left
    · rw [retrying]
      decide

/-- Only a counted execution moves the count. -/
theorem JobWrite.count {jobId : Uuid} {f : Job → Job} (hm : mode.counted)
    (h : JobWrite cfg mode s t jobId f) (hs : Budgets s) :
    (t.executions = s.executions ∧
      ∀ j ∈ s.jobs, j.jobId = jobId → (f j).attemptCount = j.attemptCount) ∨
    ∃ w ∈ s.workers, ∃ i ∈ s.jobs, i.jobId = jobId ∧ i.runId = w.runId ∧
      t.executions = w.runId :: s.executions ∧
      ∀ j ∈ s.jobs, j.jobId = jobId → (f j).attemptCount = j.attemptCount + 1 := by
  cases h with
  | requeue mem _ requeues _ quiet =>
    refine Or.inl ⟨quiet, fun j hj hid => ?_⟩
    cases Table.eq_of_key hj mem hid
    exact requeues.attemptCount
  | adopt _ _ _ quiet => exact Or.inl ⟨quiet, fun j _ _ => dirty_self _ _⟩
  | finish _ _ _ _ _ quiet => exact Or.inl ⟨quiet, fun j _ _ => dirty_self _ _⟩
  | @mark w job run now mem at_ counted begun =>
    obtain ⟨hrun, i, hi, hsame⟩ := (hs.sessions.session w mem).job job (by rw [at_]; rfl)
    exact Or.inr ⟨w, mem, i, hi, hsame.jobId, hsame.runId.trans hrun, begun,
      fun j hj hid => (mark_counts hs mem at_ (counted hm) hj hid).1⟩
  | fail _ _ _ _ _ quiet => exact Or.inl ⟨quiet, fun _ _ _ => rfl⟩
  | retry _ _ jobMem _ _ _ _ count _ _ quiet =>
    refine Or.inl ⟨quiet, fun j hj hid => ?_⟩
    cases Table.eq_of_key hj jobMem hid
    exact count

theorem trans_counted (hm : mode.counted) (h : Trans cfg mode s t) (hs : Budgets s) :
    ∀ j ∈ t.jobs, t.executions.count j.runId = j.attemptCount := by
  intro j' hj'
  rcases trans_job h hj' with ⟨hold, hquiet | ⟨id, f, hwrite, hne⟩⟩ | ⟨hnew, hquiet⟩ |
    ⟨j, hj, f, hwrite, rfl, hsame⟩
  · rw [hquiet]
    exact hs.counted j' hold
  · rcases hwrite.count hm hs with ⟨hquiet, _⟩ | ⟨w, _, i, hi, hid, hrun, hbegun, _⟩
    · rw [hquiet]
      exact hs.counted j' hold
    · have hother : w.runId ≠ j'.runId := by
        intro he
        exact hne (hid ▸ congrArg Job.jobId (hs.sessions.unique j' hold i hi (he ▸ hrun.symm)))
      rw [hbegun, List.count_cons_of_ne hother]
      exact hs.counted j' hold
  · rw [hquiet, hnew.unused]
    refine List.count_eq_zero.mpr fun hmem => ?_
    obtain ⟨j, hj, hrun⟩ := hs.known _ hmem
    exact hnew.fresh j hj hrun
  · rw [hsame.runId]
    rcases hwrite.count hm hs with ⟨hquiet, hcount⟩ | ⟨w, _, i, hi, hid, hrun, hbegun, hcount⟩
    · rw [hquiet, hcount j hj rfl]
      exact hs.counted j hj
    · have heq : i = j := Table.eq_of_key hi hj hid
      rw [heq] at hrun
      rw [hbegun, hrun, List.count_cons_self, hcount j hj rfl, ← hrun, hs.counted j hj]

theorem trans_known (h : Trans cfg mode s t) (hs : Budgets s) :
    ∀ runId ∈ t.executions, ∃ j ∈ t.jobs, j.runId = runId := by
  have hkeep : ∀ j ∈ s.jobs, ∃ j' ∈ t.jobs, j'.runId = j.runId := by
    intro j hj
    obtain ⟨j', hj', hsame⟩ := trans_keepsJob h hj
    exact ⟨j', hj', hsame.runId⟩
  have hold : ∀ runId ∈ s.executions, ∃ j ∈ t.jobs, j.runId = runId := by
    intro runId hmem
    obtain ⟨j, hj, rfl⟩ := hs.known runId hmem
    exact hkeep j hj
  cases h with
  | run | job | unlease | redeliver | outbox | broker | receive | go | adopt | finish | fail
  | retry => exact hold
  | @mark w job run now mem at_ =>
    intro runId hmem
    rcases List.mem_cons.mp hmem with rfl | hmem
    · obtain ⟨hrun, j, hj, hsame⟩ := (hs.sessions.session w mem).job job (by rw [at_]; rfl)
      obtain ⟨j', hj', hrun'⟩ := hkeep j hj
      exact ⟨j', hj', hrun'.trans (hsame.runId.trans hrun)⟩
    · exact hold runId hmem

theorem trans_keepsRuns (h : Trans cfg mode s t) : s.runs.Keeps t.runs := by
  rcases trans_runs h with hsame | ⟨_, _, hins⟩ | ⟨_, f, hf, _, hmod⟩
  · rw [hsame]
    exact Table.Keeps.refl _
  · exact Table.keeps_insert? hins
  · rw [hmod]
    exact Table.keeps_modify _

theorem trans_owners (h : Trans cfg mode s t) (hs : Budgets s) :
    ∀ j ∈ t.jobs, ∃ r ∈ t.runs, r.runId = j.runId := by
  have hkeep : ∀ runId, (∃ r ∈ s.runs, r.runId = runId) → ∃ r ∈ t.runs, r.runId = runId := by
    rintro _ ⟨r, hr, rfl⟩
    exact trans_keepsRuns h r hr
  intro j' hj'
  rcases trans_job h hj' with ⟨hold, _⟩ | ⟨hnew, _⟩ | ⟨j, hj, f, _, _, hsame⟩
  · exact hkeep _ (hs.owner j' hold)
  · exact hkeep _ hnew.owner
  · rw [hsame.runId]
    exact hkeep _ (hs.owner j hj)

theorem trans_budgets (hmax : 0 < cfg.maxAttempts) (hm : mode.counted) (h : Trans cfg mode s t)
    (hs : Budgets s) : Budgets t := by
  refine ⟨trans_sessions h hs.sessions, fun j' hj' => ?_, trans_loaded h hs,
    trans_counted hm h hs, trans_known h hs, trans_owners h hs⟩
  rcases trans_job h hj' with ⟨hold, _⟩ | ⟨hnew, _⟩ | ⟨j, hj, f, hwrite, rfl, _⟩
  · exact hs.job j' hold
  · have hlt : j'.attemptCount < j'.maxAttempts := by
      rw [hnew.unused, hnew.bound]
      exact hmax
    exact ⟨hlt.le, fun _ => hlt, by rw [hnew.queued]; decide⟩
  · exact hwrite.budgeted hm hs hj rfl

theorem budgets_init : Budgets State.init := by
  have hjobs : ∀ j, ¬ j ∈ State.init.jobs := Table.not_mem_empty
  have hworkers : ∀ w, ¬ w ∈ State.init.workers := Table.not_mem_empty
  refine ⟨⟨fun j hj => absurd hj (hjobs j), fun w hw => absurd hw (hworkers w)⟩, ?_, ?_, ?_, ?_, ?_⟩
  · exact fun j hj => absurd hj (hjobs j)
  · exact fun w hw => absurd hw (hworkers w)
  · exact fun j hj => absurd hj (hjobs j)
  · exact fun runId hmem => absurd hmem List.not_mem_nil
  · exact fun j hj => absurd hj (hjobs j)

/-! ## The last attempt -/

/-- The job and its run have failed for want of another attempt. -/
def RetryExhausted (s : State) (j : Job) : Prop :=
  (∃ j' ∈ s.jobs, j'.jobId = j.jobId ∧ j'.status = .failed) ∧
  ∃ r ∈ s.runs, r.runId = j.runId ∧ r.status = .failed ∧ r.failureCode = some .retryExhausted

theorem fail_exhausted {now : Instant} {j : Job} {message : String} (hj : j ∈ s.jobs)
    (howner : ∃ r ∈ s.runs, r.runId = j.runId) :
    RetryExhausted (s.fail now j.jobId j.runId .retryExhausted message) j := by
  obtain ⟨r, hr, hrun⟩ := howner
  refine ⟨⟨j.failed now message, ?_, rfl, rfl⟩, ⟨r.failed now .retryExhausted message, ?_, hrun, rfl,
    rfl⟩⟩
  · exact (State.mem_setJob (by intro _; rfl)).mpr (Or.inr ⟨j, hj, rfl, rfl⟩)
  · exact (State.mem_setRun (by intro _; rfl)).mpr (Or.inr ⟨r, hr, hrun, rfl⟩)

/-- When an execution raises and no attempt is left, both rows fail. -/
theorem scheduleRetry_exhausted {w : Worker} {loaded j : Job} {message : String} (hs : Budgets s)
    (hw : w ∈ s.workers) (hat : w.phase = .raised loaded message) (hj : j ∈ s.jobs)
    (hrun : j.runId = w.runId) (hmax : j.attemptCount = j.maxAttempts) (now jitter : Instant)
    (ids : DeliveryIds) :
    RetryExhausted (apply cfg (.scheduleRetry w.workerId now jitter ids) s) j := by
  have hid : loaded.jobId = j.jobId := by
    obtain ⟨hloaded, i, hi, hsame⟩ := (hs.sessions.session w hw).job loaded (by rw [hat]; rfl)
    rw [hs.sessions.unique j hj i hi (by rw [hsame.runId, hloaded, hrun])]
    exact hsame.jobId.symm
  obtain ⟨r, hr, hown⟩ := hs.owner j hj
  have hfind : s.runs.find? w.runId = some r := Table.find?_eq_some.mpr ⟨hr, hown.trans hrun⟩
  have hstep : scheduleRetry cfg now jitter ids loaded.jobId w.runId message s =
      .ok (s.fail now j.jobId j.runId .retryExhausted message) := by
    unfold scheduleRetry
    rw [hid, Table.find?_self hj, hfind]
    simp only [hmax, le_refl, if_true, hrun]
  simp only [apply, Table.find?_self hw, workerStep, hat]
  rw [hstep]
  exact fail_exhausted hj (hs.owner j hj)

/-- How the attempts of a job stand in `s` and what is left of them in `t`. -/
structure WithinBudget (cfg : Config) (s t : State) (j : Job) : Prop where
  le : j.attemptCount ≤ j.maxAttempts
  /-- The count is the number of executions there have been. -/
  executions : s.executions.count j.runId = j.attemptCount
  /-- A job that has used them all is not waiting for another. -/
  used : j.attemptCount = j.maxAttempts → j.status = .processing ∨ j.status.terminal = true
  /-- It is never started again. -/
  last : j.attemptCount = j.maxAttempts → t.executions.count j.runId = s.executions.count j.runId
  /-- When the last execution raises, the job fails. -/
  exhausted : j.attemptCount = j.maxAttempts → ∀ w ∈ s.workers, w.runId = j.runId →
    ∀ loaded message, w.phase = .raised loaded message → ∀ now jitter ids,
      RetryExhausted (apply cfg (.scheduleRetry w.workerId now jitter ids) s) j

/-- Along a run rows stay, executions add up and the bound is the same. -/
def Accrues (s t : State) : Prop :=
  (∀ j ∈ s.jobs, ∃ j' ∈ t.jobs, Same j j') ∧
  ∀ runId, s.executions.count runId ≤ t.executions.count runId

theorem Accrues.trans {u : State} (h : Accrues s t) (h' : Accrues t u) : Accrues s u := by
  refine ⟨fun j hj => ?_, fun runId => (h.2 runId).trans (h'.2 runId)⟩
  obtain ⟨j', hj', hsame⟩ := h.1 j hj
  obtain ⟨j'', hj'', hsame'⟩ := h'.1 j' hj'
  exact ⟨j'', hj'', hsame.trans hsame'⟩

theorem trans_accrues (h : Trans cfg mode s t) : Accrues s t := by
  refine ⟨fun j hj => trans_keepsJob h hj, fun runId => ?_⟩
  cases h with
  | run | job | unlease | redeliver | outbox | broker | receive | go | adopt | finish | fail
  | retry => exact le_rfl
  | mark => exact List.count_le_count_cons

/-- **Attempts.** With a bound of at least one, in a run of the queue in which every
execution is counted on the row as it stands and no job without an attempt left is
requeued, every job stays within its attempts. -/
theorem attempts_within (hmax : 0 < cfg.maxAttempts)
    (hs : StepsIf (apply cfg) (fun s op => op.meets cfg .countedly s) State.init s)
    (ht : StepsIf (apply cfg) (fun s op => op.meets cfg .countedly s) s t) :
    ∀ j ∈ s.jobs, WithinBudget cfg s t j := by
  have hstep : ∀ u v, Trans cfg .countedly u v → Budgets u → Budgets v :=
    fun _ _ => trans_budgets hmax trivial
  have hstart : Budgets s := steps_inv hstep hs budgets_init
  have hend : Budgets t := steps_inv hstep ht hstart
  have haccrues : Accrues s t := steps_rel (I := Budgets)
    (fun u => ⟨fun j hj => ⟨j, hj, Same.refl j⟩, fun _ => le_rfl⟩)
    (fun _ _ _ => Accrues.trans) hstep (fun _ _ h _ => trans_accrues h) ht hstart
  intro j hj
  have hjob := hstart.job j hj
  have hcount := hstart.counted j hj
  refine ⟨hjob.le, hcount, fun hused => ?_, fun hused => ?_, fun hused => ?_⟩
  · cases hterm : j.status.terminal with
    | true => exact Or.inr rfl
    | false =>
      rcases hjob.open_ hterm with hlt | hst
      · omega
      · exact Or.inl hst
  · obtain ⟨j', hj', hsame⟩ := haccrues.1 j hj
    have hle := (hend.job j' hj').le
    have hcount' := hend.counted j' hj'
    have hgrows := haccrues.2 j.runId
    rw [hsame.runId] at hcount'
    rw [hsame.maxAttempts] at hle
    omega
  · intro w hw hrun loaded message hat now jitter ids
    exact scheduleRetry_exhausted hstart hw hat hj hrun.symm hused now jitter ids

/-- One attempt for each job. -/
def onceConfig : Config := { quotesConfig with maxAttempts := 1 }

/-- A worker has marked the job. -/
def started : State :=
  runAll (apply onceConfig) (delivered ++ (reads 7 ++ [.tryLock 7, .mark 7 20])) State.init

/-- The only attempt raises and both rows fail. -/
theorem attempts_within_once :
    0 < onceConfig.maxAttempts ∧ ∀ j ∈ started.jobs, WithinBudget onceConfig started
      (runAll (apply onceConfig)
        [.execute 7 21 ⟨true, some true, true, false⟩ (.raised "ValueError: boom"),
          .scheduleRetry 7 22 0 ⟨1001, 2001⟩, .release 7] started) j := by
  refine ⟨by decide, attempts_within (by decide) (runAll_steps _ _ ?_) (runAll_steps _ _ ?_)⟩
  · refine ⟨trivial, trivial, trivial, trivial, trivial, trivial, trivial, fun h => h.elim, ?_,
      trivial⟩
    rintro _ w hw - job run hat
    cases List.mem_singleton.mp hw
    cases hat
    refine ⟨by decide, fun j hj _ => ?_⟩
    cases List.mem_singleton.mp hj
    rfl
  · exact ⟨trivial, trivial, trivial, trivial⟩

/-- The worker dies, its lease runs out, and the reconciler delivers the job again. -/
def restarted : State :=
  runAll (apply onceConfig)
    [.markOutboxPublished 21 ⟨2000, 1, 1000, .accepted⟩, .crash 7,
      .reconcileStaleJobs (30 * 60 * second) (fun _ => false) (fun _ => ⟨1001, 2001⟩),
      .claimOutboxBatch (30 * 60 * second) (fun _ => false),
      .publish ⟨2001, 1, 1001, .claimed⟩ true none, .receive 8 1 1001, .readJob 8, .readRun 8,
      .tryLock 8, .mark 8 (30 * 60 * second)]
    started

theorem attempts_exceeded :
    Reachable onceConfig started ∧ Steps onceConfig started restarted ∧
      (∃ j ∈ restarted.jobs, ¬ j.attemptCount ≤ j.maxAttempts) ∧
      started.jobs.rows.map (fun j => (j.attemptCount, j.maxAttempts)) = [(1, 1)] ∧
      restarted.jobs.rows.map (fun j => (j.attemptCount, j.maxAttempts)) = [(2, 1)] ∧
      restarted.executions = [1, 1] := by
  refine ⟨runAll_steps _ _ (admitted_of_forall (fun _ _ => trivial) _ _),
    runAll_steps _ _ (admitted_of_forall (fun _ _ => trivial) _ _),
    ⟨_, List.mem_singleton.mpr rfl, ?_⟩, ?_⟩
  · decide
  · decide

end FinDB.Normalization
