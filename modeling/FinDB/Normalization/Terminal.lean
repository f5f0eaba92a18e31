import FinDB.Normalization.Writes

/-! # Ended runs

A worker checks the statuses before it takes the advisory lock and not again after
it, so an execution that falls between the check and the lock is undone. Where no
execution falls there, a run that has ended stays so: the lock keeps out everybody
else who could write, and whoever holds it entered before the end. -/
namespace FinDB.Normalization
open FinDB.Lib Relation

variable {cfg : Config} {mode : Mode} {s t : State}

/-! ## The lock -/

/-- Inside the lock and before the outcome is written. -/
def Phase.critical : Phase → Bool
  | .locked _ _ | .executing _ _ | .failing _ _ _ | .raised _ _ => true
  | _ => false

/-- One holder for each lock. -/
def Exclusive (cfg : Config) (s : State) : Prop :=
  ∀ w ∈ s.workers, ∀ v ∈ s.workers, ∀ k l, w.phase.holds = some k → v.phase.holds = some l →
    cfg.hashtext k = cfg.hashtext l → w = v

theorem lockHeld_false {k : DatasetKey} (h : s.lockHeld cfg k = false) :
    ∀ w ∈ s.workers, ∀ l, w.phase.holds = some l → cfg.hashtext l ≠ cfg.hashtext k := by
  intro w hw l hl he
  have hany : s.lockHeld cfg k = true := by
    refine List.any_eq_true.mpr ⟨w, hw, ?_⟩
    rw [hl]
    simpa using he
  rw [h] at hany
  cases hany

/-- A lock is held on, or was free. -/
theorem moves_holds {w : Worker} {phase : Phase} {k : DatasetKey} (h : Moves cfg mode s w phase)
    (hk : phase.holds = some k) : w.phase.holds = some k ∨ s.lockHeld cfg k = false := by
  cases h with
  | go goes =>
    cases goes with
    | readJob | contend | stop => cases hk
    | check at_ =>
      unfold checkDelivery at hk
      repeat (first | split at hk | cases hk)
    | lock at_ free =>
      cases hk
      exact Or.inr free
    | abort at_ | fail at_ | raise at_ =>
      rw [at_]
      exact Or.inl hk
    | refused at_ =>
      left
      rcases at_ with ⟨code, message, at_⟩ | ⟨message, at_⟩
      · rw [at_]; exact hk
      · rw [at_]; exact hk
  | mark now at_ =>
    rw [at_]
    exact Or.inl hk
  | finish at_ =>
    rw [at_]
    exact Or.inl hk

theorem trans_exclusive (h : Trans cfg mode s t) (hs : Exclusive cfg s) : Exclusive cfg t := by
  rcases trans_workers h with hsame | ⟨w, hw, hins⟩ | ⟨w, hw, phase, hmoves, hmod⟩
  · unfold Exclusive
    rw [hsame]
    exact hs
  · have hold : ∀ v ∈ t.workers, ∀ k, v.phase.holds = some k → v ∈ s.workers := by
      intro v hv k hk
      rcases (Table.mem_insert? hins).mp hv with hold | rfl
      · exact hold
      · rw [hw] at hk
        cases hk
    intro x hx v hv k l hk hl he
    exact hs x (hold x hx k hk) v (hold v hv l hl) k l hk hl he
  · have hfrom : ∀ v ∈ t.workers, (v ∈ s.workers ∧ v.workerId ≠ w.workerId) ∨
        v = { w with phase } := by
      intro v hv
      rwa [hmod, Table.mem_modify_row (by intro _; rfl) hw] at hv
    -- nobody else holds the lock of the worker that moved
    have hother : ∀ v ∈ s.workers, v.workerId ≠ w.workerId → ∀ k l, phase.holds = some k →
        v.phase.holds = some l → cfg.hashtext l ≠ cfg.hashtext k := by
      intro v hv hne k l hk hl he
      rcases moves_holds hmoves hk with hheld | hfree
      · exact hne (congrArg Worker.workerId (hs v hv w hw l k hl hheld he))
      · exact lockHeld_false hfree v hv l hl he
    intro x hx v hv k l hk hl he
    rcases hfrom x hx with ⟨hx, hxne⟩ | rfl
    · rcases hfrom v hv with ⟨hv, _⟩ | rfl
      · exact hs x hx v hv k l hk hl he
      · exact absurd he (hother x hx hxne l k hl hk)
    · rcases hfrom v hv with ⟨hv, hvne⟩ | rfl
      · exact absurd he.symm (hother v hv hvne k l hk hl)
      · rfl

/-! ## Who may still write -/

/-- Whoever is inside the lock entered before the end, and the terminal branch is
taken only after it. -/
structure Guarded (cfg : Config) (s : State) : Prop where
  sessions : Sessions s
  exclusive : Exclusive cfg s
  entered : ∀ w ∈ s.workers, w.phase.critical = true → ¬ Ended s w.runId
  adopting : ∀ w ∈ s.workers, ∀ job run, w.phase = .adopting job run → Ended s w.runId

theorem Session.loaded {w : Worker} {job j : Job} (hw : Session s w) (hjob : w.phase.job = some job)
    (hj : j ∈ s.jobs) (hid : j.jobId = job.jobId) : j.runId = w.runId := by
  obtain ⟨hrun, i, hi, hsame⟩ := hw.job job hjob
  have heq : j = i := Table.eq_of_key hj hi (hid.trans hsame.jobId.symm)
  rw [heq, hsame.runId, hrun]

theorem failing_job {w : Worker} {job : Job}
    (at_ : (∃ code message, w.phase = .failing job code message) ∨
      ∃ message, w.phase = .raised job message) : w.phase.job = some job := by
  rcases at_ with ⟨code, message, at_⟩ | ⟨message, at_⟩
  · rw [at_]; rfl
  · rw [at_]; rfl

theorem dirty_terminal {loaded new current : RunStatus} (hn : new.terminal = true)
    (hc : current.terminal = true) : (dirty loaded new current).terminal = true := by
  unfold dirty
  split
  · exact hc
  · exact hn

/-- Marking ends nothing. -/
theorem terminal_of_marked {loaded current : RunStatus}
    (h : (dirty loaded .processing current).terminal = true) : current.terminal = true := by
  by_cases hl : RunStatus.processing = loaded
  · rwa [dirty, if_pos hl] at h
  · rw [dirty, if_neg hl] at h
    cases h

theorem NormalizeResult.status_terminal (r : NormalizeResult) : r.status.terminal = true := by
  unfold NormalizeResult.status
  split <;> rfl

/-- A write leaves an ended job ended. -/
theorem JobWrite.ended {jobId : Uuid} {f : Job → Job} (h : JobWrite cfg mode s t jobId f)
    (hs : Guarded cfg s) {j : Job} (hj : j ∈ s.jobs) (hid : j.jobId = jobId)
    (hend : j.status.terminal = true) : (f j).status.terminal = true := by
  have hrun : ∀ w ∈ s.workers, ∀ job, w.phase.job = some job → jobId = job.jobId →
      w.phase.critical = false := by
    intro w hw job hjob he
    cases hc : w.phase.critical with
    | false => rfl
    | true =>
      exact absurd (Or.inr ⟨j, hj, (hs.sessions.session w hw).loaded hjob hj (hid.trans he), hend⟩)
        (hs.entered w hw hc)
  cases h with
  | requeue mem waiting =>
    cases Table.eq_of_key hj mem hid
    rw [waiting] at hend
    cases hend
  | @adopt w job run now mem at_ =>
    have hseen := (hs.sessions.session w mem).seen
    rw [at_] at hseen
    exact dirty_terminal hseen.2 hend
  | @mark w job run now mem at_ =>
    have hc := hrun w mem job (by rw [at_]; rfl) rfl
    rw [at_] at hc
    cases hc
  | finish now r => exact dirty_terminal r.status_terminal hend
  | fail => rfl
  | @retry w loaded job message f mem at_ jobMem jobId =>
    have hc := hrun w mem loaded (by rw [at_]; rfl) jobId
    rw [at_] at hc
    cases hc

theorem RunWrite.ended {runId : Uuid} {f : Run → Run} (h : RunWrite s t runId f)
    (hs : Guarded cfg s) {r : Run} (hr : r ∈ s.runs) (hid : r.runId = runId)
    (hend : r.status.terminal = true) : (f r).status.terminal = true := by
  cases h with
  | @mark w job run now count mem at_ =>
    have hrun := (hs.sessions.session w mem).run run (by rw [at_]; rfl)
    exact absurd (Or.inl ⟨r, hr, hid.trans hrun, hend⟩) (hs.entered w mem (by rw [at_]; rfl))
  | finish now q => exact dirty_terminal q.status_terminal hend
  | fail => rfl
  | @retry w job message run g mem at_ runMem runId =>
    exact absurd (Or.inl ⟨r, hr, hid.trans runId, hend⟩) (hs.entered w mem (by rw [at_]; rfl))

/-- Only a worker inside the lock ends a run, and it is out of the critical phases
when it has. -/
def EndedBy (s t : State) (runId : Uuid) : Prop :=
  ∃ w ∈ s.workers, ∃ job, w.phase.job = some job ∧ w.runId = runId ∧ StandsAt t w (.releasing job)

theorem JobWrite.ends {jobId : Uuid} {f : Job → Job} (h : JobWrite cfg mode s t jobId f)
    (hs : Guarded cfg s) {j : Job} (hj : j ∈ s.jobs) (hid : j.jobId = jobId)
    (hend : (f j).status.terminal = true) : Ended s j.runId ∨ EndedBy s t j.runId := by
  by_cases hold : j.status.terminal = true
  · exact Or.inl (Or.inr ⟨j, hj, rfl, hold⟩)
  cases h with
  | requeue mem waiting requeues =>
    cases Table.eq_of_key hj mem hid
    rcases requeues.status with hq | ⟨hsame, _⟩
    · rw [hq] at hend
      cases hend
    · exact absurd (hsame ▸ hend) hold
  | @adopt w job run now mem at_ =>
    rw [(hs.sessions.session w mem).loaded (by rw [at_]; rfl) hj hid]
    exact Or.inl (hs.adopting w mem job run at_)
  | mark now mem at_ =>
    exact absurd (terminal_of_marked hend) hold
  | @finish w job run now r mem at_ left =>
    exact Or.inr ⟨w, mem, job, by rw [at_]; rfl,
      ((hs.sessions.session w mem).loaded (by rw [at_]; rfl) hj hid).symm, left⟩
  | @fail w job now message mem at_ left =>
    have hjob := failing_job at_
    exact Or.inr ⟨w, mem, job, hjob,
      ((hs.sessions.session w mem).loaded hjob hj hid).symm, left⟩
  | retry _ _ jobMem _ _ _ _ _ _ retrying =>
    cases Table.eq_of_key hj jobMem hid
    rw [retrying] at hend
    cases hend

theorem RunWrite.ends {runId : Uuid} {f : Run → Run} (h : RunWrite s t runId f)
    (hs : Guarded cfg s) {r : Run} (hr : r ∈ s.runs) (hid : r.runId = runId)
    (hend : (f r).status.terminal = true) : Ended s r.runId ∨ EndedBy s t r.runId := by
  by_cases hold : r.status.terminal = true
  · exact Or.inl (Or.inl ⟨r, hr, rfl, hold⟩)
  cases h with
  | mark now count mem at_ =>
    exact absurd (terminal_of_marked hend) hold
  | @finish w job run now q mem at_ left =>
    have hrun := (hs.sessions.session w mem).run run (by rw [at_]; rfl)
    exact Or.inr ⟨w, mem, job, by rw [at_]; rfl, (hid.trans hrun).symm, left⟩
  | @fail w job now code message mem at_ left =>
    exact Or.inr ⟨w, mem, job, failing_job at_, hid.symm, left⟩
  | retry _ _ runMem _ retrying =>
    cases Table.eq_of_key hr runMem hid
    rw [retrying] at hend
    cases hend

theorem trans_ends (h : Trans cfg mode s t) (hs : Guarded cfg s) {runId : Uuid}
    (hend : Ended t runId) : Ended s runId ∨ EndedBy s t runId := by
  rcases hend with ⟨r', hr', rfl, hterm⟩ | ⟨j', hj', rfl, hterm⟩
  · rcases trans_runs h with hsame | ⟨id, datasetKey, hins⟩ | ⟨id, f, hf, hwrite, hmod⟩
    · exact Or.inl (Or.inl ⟨r', hsame ▸ hr', rfl, hterm⟩)
    · rcases (Table.mem_insert? hins).mp hr' with hold | rfl
      · exact Or.inl (Or.inl ⟨r', hold, rfl, hterm⟩)
      · cases hterm
    · rw [hmod, Table.mem_modify] at hr'
      rcases hr' with ⟨hold, _⟩ | ⟨r, hr, hid, rfl⟩
      · exact Or.inl (Or.inl ⟨r', hold, rfl, hterm⟩)
      · rw [hf]
        exact hwrite.ends hs hr hid hterm
  · rcases trans_job h hj' with ⟨hold, _⟩ | ⟨hnew, _⟩ | ⟨j, hj, f, hwrite, rfl, hsame⟩
    · exact Or.inl (Or.inr ⟨j', hold, rfl, hterm⟩)
    · rw [hnew.queued] at hterm
      cases hterm
    · rw [hsame.runId]
      exact hwrite.ends hs hj rfl hterm

/-- Ended rows stay ended. -/
structure StaysEnded (s t : State) : Prop where
  job : ∀ j ∈ s.jobs, j.status.terminal = true →
    ∃ j' ∈ t.jobs, j'.jobId = j.jobId ∧ j'.runId = j.runId ∧ j'.status.terminal = true
  run : ∀ r ∈ s.runs, r.status.terminal = true →
    ∃ r' ∈ t.runs, r'.runId = r.runId ∧ r'.status.terminal = true

theorem StaysEnded.refl (s : State) : StaysEnded s s :=
  ⟨fun j hj h => ⟨j, hj, rfl, rfl, h⟩, fun r hr h => ⟨r, hr, rfl, h⟩⟩

theorem StaysEnded.trans {u : State} (h : StaysEnded s t) (h' : StaysEnded t u) :
    StaysEnded s u := by
  refine ⟨fun j hj hterm => ?_, fun r hr hterm => ?_⟩
  · obtain ⟨j', hj', hid, hrun, hterm'⟩ := h.job j hj hterm
    obtain ⟨j'', hj'', hid', hrun', hterm''⟩ := h'.job j' hj' hterm'
    exact ⟨j'', hj'', hid'.trans hid, hrun'.trans hrun, hterm''⟩
  · obtain ⟨r', hr', hid, hterm'⟩ := h.run r hr hterm
    obtain ⟨r'', hr'', hid', hterm''⟩ := h'.run r' hr' hterm'
    exact ⟨r'', hr'', hid'.trans hid, hterm''⟩

theorem StaysEnded.ended {runId : Uuid} (h : StaysEnded s t) (hend : Ended s runId) :
    Ended t runId := by
  rcases hend with ⟨r, hr, rfl, hterm⟩ | ⟨j, hj, rfl, hterm⟩
  · obtain ⟨r', hr', hid, hterm'⟩ := h.run r hr hterm
    exact Or.inl ⟨r', hr', hid, hterm'⟩
  · obtain ⟨j', hj', _, hrun, hterm'⟩ := h.job j hj hterm
    exact Or.inr ⟨j', hj', hrun, hterm'⟩

theorem trans_staysEnded (h : Trans cfg mode s t) (hs : Guarded cfg s) : StaysEnded s t := by
  refine ⟨fun j hj hterm => ?_, fun r hr hterm => ?_⟩
  · rcases trans_jobs h with ⟨hsame, _⟩ | ⟨job, _, hins, _⟩ | ⟨id, f, hf, hwrite, hmod⟩
    · exact ⟨j, hsame ▸ hj, rfl, rfl, hterm⟩
    · exact ⟨j, (Table.mem_insert? hins).mpr (Or.inl hj), rfl, rfl, hterm⟩
    · rw [hmod]
      by_cases hid : j.jobId = id
      · exact ⟨f j, Table.mem_modify.mpr (Or.inr ⟨j, hj, hid, rfl⟩), hf j,
          (hwrite.same hf hj hid).runId, hwrite.ended hs hj hid hterm⟩
      · exact ⟨j, Table.mem_modify.mpr (Or.inl ⟨hj, hid⟩), rfl, rfl, hterm⟩
  · rcases trans_runs h with hsame | ⟨id, datasetKey, hins⟩ | ⟨id, f, hf, hwrite, hmod⟩
    · exact ⟨r, hsame ▸ hr, rfl, hterm⟩
    · exact ⟨r, (Table.mem_insert? hins).mpr (Or.inl hr), rfl, hterm⟩
    · rw [hmod]
      by_cases hid : r.runId = id
      · exact ⟨f r, Table.mem_modify.mpr (Or.inr ⟨r, hr, hid, rfl⟩), hf r,
          hwrite.ended hs hr hid hterm⟩
      · exact ⟨r, Table.mem_modify.mpr (Or.inl ⟨hr, hid⟩), rfl, hterm⟩

/-- A worker in a critical phase was in one, or has just got the lock of a run that
has not ended. -/
theorem moves_critical {w : Worker} {phase : Phase} (hm : mode.fresh)
    (h : Moves cfg mode s w phase) (hc : phase.critical = true) :
    w.phase.critical = true ∨ ¬ Ended s w.runId := by
  cases h with
  | go goes =>
    cases goes with
    | readJob | contend | stop | refused => cases hc
    | check at_ =>
      unfold checkDelivery at hc
      repeat (first | split at hc | cases hc)
    | lock at_ free fresh => exact Or.inr (fresh hm)
    | abort at_ | fail at_ | raise at_ =>
      rw [at_]
      exact Or.inl rfl
  | mark now at_ =>
    rw [at_]
    exact Or.inl rfl
  | finish at_ => cases hc

/-- The terminal branch is taken by a worker that has just read an ended run. -/
theorem moves_adopting {w : Worker} {phase : Phase} {job : Job} {run : Run}
    (h : Moves cfg mode s w phase) (hp : phase = .adopting job run) (hseen : phase.Seen) :
    Ended s w.runId := by
  cases h with
  | go goes =>
    cases goes with
    | readJob | contend | lock | abort | fail | raise | refused | stop => cases hp
    | @check job? at_ =>
      obtain ⟨_, hrun, _⟩ := checkDelivery_session w.deliveryId job? (s.runs.find? w.runId)
      rw [hp] at hrun hseen
      rcases hrun with hnone | hfind
      · cases hnone
      · obtain ⟨hmem, hid⟩ := Table.find?_eq_some.mp hfind.symm
        exact Or.inl ⟨run, hmem, hid, hseen.2⟩
  | mark | finish => cases hp

theorem Phase.holds_of_critical {phase : Phase} (h : phase.critical = true) :
    ∃ job, phase.job = some job ∧ phase.holds = some job.datasetKey := by
  cases phase with
  | locked job | executing job | failing job | raised job => exact ⟨job, rfl, rfl⟩
  | received | readJob | adopting | checked | contended | releasing | done => cases h

theorem trans_keepsWorkers (h : Trans cfg mode s t) : s.workers.Keeps t.workers := by
  rcases trans_workers h with hsame | ⟨w, _, hins⟩ | ⟨w, _, phase, _, hmod⟩
  · rw [hsame]
    exact Table.Keeps.refl _
  · exact Table.keeps_insert? hins
  · rw [hmod]
    exact Table.keeps_modify _

/-- Two workers of one run have loaded one job. -/
theorem Sessions.sameDataset {w v : Worker} {job job' : Job} (hs : Sessions s)
    (hw : w ∈ s.workers) (hv : v ∈ s.workers) (hjob : w.phase.job = some job)
    (hjob' : v.phase.job = some job') (hrun : job.runId = job'.runId) :
    job.datasetKey = job'.datasetKey := by
  obtain ⟨_, i, hi, hsame⟩ := (hs.session w hw).job job hjob
  obtain ⟨_, j, hj, hsame'⟩ := (hs.session v hv).job job' hjob'
  have heq : i = j := hs.unique i hi j hj (by rw [hsame.runId, hsame'.runId, hrun])
  rw [← hsame.datasetKey, ← hsame'.datasetKey, heq]

/-- A worker in a critical phase after a step that ended its run would share the
lock with the one that ended it. -/
theorem not_endedBy {w' : Worker} (h : Trans cfg mode s t) (hs : Guarded cfg s)
    (hsess : Sessions t) (hexcl : Exclusive cfg t) (hw' : w' ∈ t.workers)
    (hc : w'.phase.critical = true) : ¬ EndedBy s t w'.runId := by
  rintro ⟨w, hw, job, hjob, hrun, hstands⟩
  obtain ⟨v, hv, hid⟩ := trans_keepsWorkers h w hw
  have hphase : v.phase = .releasing job := hstands v hv hid
  obtain ⟨job', hjob', hholds'⟩ := Phase.holds_of_critical hc
  have hjobs : job'.runId = job.runId := by
    rw [((hsess.session w' hw').job job' hjob').1, ((hs.sessions.session w hw).job job hjob).1, hrun]
  have hdataset := hsess.sameDataset hw' hv hjob' (by rw [hphase]; rfl) hjobs
  have heq : w' = v := hexcl w' hw' v hv _ job.datasetKey hholds' (by rw [hphase]; rfl)
    (by rw [hdataset])
  rw [heq, hphase] at hc
  cases hc

theorem trans_guarded (hm : mode.fresh) (h : Trans cfg mode s t) (hs : Guarded cfg s) :
    Guarded cfg t := by
  have hsess := trans_sessions h hs.sessions
  have hexcl := trans_exclusive h hs.exclusive
  have hstays := trans_staysEnded h hs
  refine ⟨hsess, hexcl, fun w' hw' hc hend => ?_, fun w' hw' job run hat => ?_⟩
  · rcases trans_ends h hs hend with hend | hby
    · rcases trans_worker h hw' with hold | hnew | ⟨w, hw, phase, hmoves, rfl⟩
      · exact hs.entered w' hold hc hend
      · rw [hnew] at hc
        cases hc
      · rcases moves_critical hm hmoves hc with hcrit | hopen
        · exact hs.entered w hw hcrit hend
        · exact hopen hend
    · exact not_endedBy h hs hsess hexcl hw' hc hby
  · refine hstays.ended ?_
    rcases trans_worker h hw' with hold | hnew | ⟨w, hw, phase, hmoves, rfl⟩
    · exact hs.adopting w' hold job run hat
    · rw [hnew] at hat
      cases hat
    · have hread : Ended s w.runId :=
        moves_adopting hmoves hat (moves_session (hs.sessions.session w hw) hmoves).seen
      exact hread

theorem guarded_init : Guarded cfg State.init := by
  have hworkers : ∀ w, ¬ w ∈ State.init.workers := Table.not_mem_empty
  refine ⟨⟨fun j hj => ?_, fun w hw => ?_⟩, fun w hw => ?_, fun w hw => ?_, fun w hw => ?_⟩
  · exact absurd hj (Table.not_mem_empty j)
  · exact absurd hw (hworkers w)
  · exact absurd hw (hworkers w)
  · exact absurd hw (hworkers w)
  · exact absurd hw (hworkers w)

/-! ## Ended runs are over -/

/-- What ended in `s` is over in `t`: its rows have kept a terminal status, and no
execution has begun since or is going on. -/
structure Over (s t : State) : Prop extends StaysEnded s t where
  begun : ∀ runId, Ended s runId → t.executions.count runId = s.executions.count runId
  idle : ∀ w ∈ t.workers, Ended s w.runId → ∀ job run, w.phase ≠ .executing job run

theorem trans_executions (h : Trans cfg mode s t) (hs : Guarded cfg s) {runId : Uuid}
    (hend : Ended s runId) : t.executions.count runId = s.executions.count runId := by
  cases h with
  | run | job | unlease | redeliver | outbox | broker | receive | go | adopt | finish | fail
  | retry => rfl
  | @mark w job run now mem at_ =>
    have hne : w.runId ≠ runId := by
      intro he
      exact hs.entered w mem (by rw [at_]; rfl) (he ▸ hend)
    exact List.count_cons_of_ne hne

/-- **Ended runs.** In a run of the queue in which no worker gets the dataset lock
of a run that has ended since it was read, what has ended is over. -/
theorem ended_over
    (hs : StepsIf (apply cfg) (fun s op => op.meets cfg .freshly s) State.init s)
    (ht : StepsIf (apply cfg) (fun s op => op.meets cfg .freshly s) s t) : Over s t := by
  have hguarded : ∀ u v, Trans cfg .freshly u v → Guarded cfg u → Guarded cfg v :=
    fun _ _ => trans_guarded trivial
  have hstart : Guarded cfg s := steps_inv hguarded hs guarded_init
  have hend : Guarded cfg t := steps_inv hguarded ht hstart
  have hrel := steps_rel (I := Guarded cfg)
    (R := fun u v => StaysEnded u v ∧
      ∀ runId, Ended u runId → v.executions.count runId = u.executions.count runId)
    (fun u => ⟨StaysEnded.refl u, fun _ _ => rfl⟩)
    (fun u v x huv hvx => ⟨huv.1.trans hvx.1, fun runId h =>
      (hvx.2 runId (huv.1.ended h)).trans (huv.2 runId h)⟩)
    hguarded
    (fun u v h hu => ⟨trans_staysEnded h hu, fun _ => trans_executions h hu⟩) ht hstart
  refine ⟨hrel.1, hrel.2, fun w hw hold job run hat => ?_⟩
  exact hend.entered w hw (by rw [hat]; rfl) (hrel.1.ended hold)

/-! ## A run of the queue -/

def quotesConfig : Config where
  maxAttempts := 3
  lease := 600 * second
  retryBase := 5 * second
  retryMax := 300 * second
  outboxBatchSize := 10
  outboxClaim := 30 * second
  hashtext := fun _ => 0

/-- One run with its job, delivered to the broker. -/
def delivered : List Op :=
  [.createRun 1 "TW_EOD", .createNormalizationJob 10 100 ⟨1000, 2000⟩ 1 none,
    .claimOutboxBatch 11 (fun _ => false), .publish ⟨2000, 1, 1000, .claimed⟩ true none]

/-- A worker gets the message and reads both rows. -/
def reads (workerId : Uuid) : List Op :=
  [.receive workerId 1 1000, .readJob workerId, .readRun workerId]

/-- It runs the normalizer over one record. -/
def normalizes (workerId : Uuid) (now : Instant) : List Op :=
  [.tryLock workerId, .mark workerId now,
    .execute workerId (now + 1) ⟨true, some true, true, false⟩ (.result ⟨1, 1, 0, none, none⟩),
    .release workerId]

/-- The first delivery is executed, and then the message arrives once more. -/
theorem ended_over_redelivery :
    Over (runAll (apply quotesConfig) (delivered ++ (reads 7 ++ normalizes 7 20)) State.init)
      (runAll (apply quotesConfig) (reads 8 ++ [.tryLock 8])
        (runAll (apply quotesConfig) (delivered ++ (reads 7 ++ normalizes 7 20)) State.init)) := by
  refine ended_over (runAll_steps _ _ ?_) (runAll_steps _ _ ?_)
  · refine ⟨trivial, trivial, trivial, trivial, trivial, trivial, trivial, ?_, fun h => h.elim,
      trivial, trivial, trivial⟩
    rintro _ w hw - job run - - (⟨r, hr, -, hterm⟩ | ⟨j, hj, -, hterm⟩)
    · cases List.mem_singleton.mp hr
      cases hterm
    · cases List.mem_singleton.mp hj
      cases hterm
  · refine ⟨trivial, trivial, trivial, ?_, trivial⟩
    rintro _ w hw - job run hat
    rcases List.mem_pair.mp hw with rfl | rfl
    · cases hat
    · cases hat

/-- Two workers have read before the first of them takes the lock. -/
def readTwice : State :=
  runAll (apply quotesConfig) (delivered ++ (reads 7 ++ (reads 8 ++ normalizes 7 20))) State.init

def markedTwice : State := runAll (apply quotesConfig) [.tryLock 8, .mark 8 30] readTwice

/-- The second one finds the lock free and starts the normalizer on a completed run. -/
theorem ended_restarted :
    Reachable quotesConfig readTwice ∧ Steps quotesConfig readTwice markedTwice ∧
      ¬ Over readTwice markedTwice ∧
      readTwice.runs.rows.map (·.status) = [.completed] ∧
      readTwice.jobs.rows.map (·.status) = [.completed] ∧
      markedTwice.runs.rows.map (·.status) = [.processing] ∧
      markedTwice.jobs.rows.map (·.status) = [.processing] ∧
      readTwice.executions = [1] ∧ markedTwice.executions = [1, 1] := by
  refine ⟨runAll_steps _ _ (admitted_of_forall (fun _ _ => trivial) _ _),
    runAll_steps _ _ (admitted_of_forall (fun _ _ => trivial) _ _), fun hover => ?_, ?_⟩
  · obtain ⟨r, hr, -, hterm⟩ := hover.run _ (List.mem_singleton.mpr rfl) rfl
    cases List.mem_singleton.mp hr
    cases hterm
  · decide

end FinDB.Normalization
