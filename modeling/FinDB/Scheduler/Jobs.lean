import FinDB.Lib.Json
import FinDB.Lib.Table
import FinDB.Scheduler.Clock

/-! # Jobs that are due

`claim_due` gives up expired leases, then leases the waiting jobs whose time has
come. Both are comparisons of stored texts with the text of now. -/
namespace FinDB.Scheduler
open FinDB.Lib

/-! ## The tables -/

inductive JobStatus where
  | pending | running | retryWait | completed | failed
deriving DecidableEq, Repr

/-- `scheduled_job`. -/
structure ScheduledRow where
  jobKey : String
  slotId : String
  provider : String
  datasetKey : String
  workItem : String
  targetDataDate : CivilDate
  scheduleId : String
  scheduledDate : CivilDate
  universeId : String
  universeVersion : Int
  symbol : String
  canonicalSymbol : String
  exchange : String
  status : JobStatus
  attemptCount : Nat
  nextAttemptAt : Option String
  leaseUntil : Option String
  lastOutcome : Option String
  preparedRequest : Option String
  updatedAt : String

/-- `symbol_checkpoint`. -/
structure Checkpoint where
  provider : String
  datasetKey : String
  universeId : String
  universeVersion : Int
  symbol : String
  tradeDate : CivilDate

def Checkpoint.key (c : Checkpoint) : String × String × String × Int × String :=
  (c.provider, c.datasetKey, c.universeId, c.universeVersion, c.symbol)

structure SchedulerState where
  jobs : Table ScheduledRow.jobKey
  checkpoints : Table Checkpoint.key

structure ScheduleConfig where
  scheduleId : String
  leaseSeconds : Nat

structure SymbolUniverse where
  universeId : String
  universeVersion : Int
  symbols : List String

/-- `ScheduledJob`. -/
structure ScheduledJob where
  row : ScheduledRow
  checkpointBefore : Option CivilDate
  preparedRequest : Option Json

/-! ## claim_due -/

/-- `column <= text`, where `NULL` is not. -/
def notAfter (column : Option String) (text : String) : Bool := column.any fun value => value ≤ text

/-- The rows of the schedule and the universe. -/
def ScheduledRow.governed (job : ScheduledRow) (schedule : ScheduleConfig) (univ : SymbolUniverse) :
    Bool :=
  job.scheduleId == schedule.scheduleId && job.universeId == univ.universeId &&
  job.universeVersion == univ.universeVersion

/-- The `WHERE` of the first statement. -/
def ScheduledRow.expired (job : ScheduledRow) (schedule : ScheduleConfig) (univ : SymbolUniverse)
    (nowText : String) : Bool :=
  job.governed schedule univ && job.status == .running && notAfter job.leaseUntil nowText

/-- `status IN ('pending', 'retry_wait')`. -/
def ScheduledRow.waiting (job : ScheduledRow) : Bool :=
  job.status == .pending || job.status == .retryWait

/-- The `WHERE` of the second statement, but for `NOT EXISTS`. -/
def ScheduledRow.due (job : ScheduledRow) (schedule : ScheduleConfig) (univ : SymbolUniverse)
    (nowText : String) : Bool :=
  job.governed schedule univ && job.waiting && notAfter job.nextAttemptAt nowText

def ScheduledRow.giveUp (nowText : String) (job : ScheduledRow) : ScheduledRow :=
  { job with
    status := .retryWait, nextAttemptAt := some nowText, leaseUntil := none,
    lastOutcome := some "lease_expired", updatedAt := nowText }

/-- The first statement. -/
def expireLeases (schedule : ScheduleConfig) (univ : SymbolUniverse) (nowText : String)
    (jobs : Table ScheduledRow.jobKey) : Table ScheduledRow.jobKey :=
  jobs.update (·.expired schedule univ nowText) (·.giveUp nowText)

/-- An earlier date of the symbol is not over. -/
def blocked (jobs : Table ScheduledRow.jobKey) (candidate : ScheduledRow) : Bool :=
  jobs.rows.any fun earlier => earlier.scheduleId == candidate.scheduleId &&
    earlier.symbol == candidate.symbol && decide (earlier.scheduledDate < candidate.scheduledDate) &&
    (earlier.waiting || earlier.status == .running)

/-- `ORDER BY scheduled_date, symbol`. -/
def claimedBefore (a b : ScheduledRow) : Bool :=
  decide (a.scheduledDate < b.scheduledDate) ||
  (a.scheduledDate == b.scheduledDate && decide (a.symbol ≤ b.symbol))

/-- The second statement. -/
def selectDue (schedule : ScheduleConfig) (univ : SymbolUniverse) (nowText : String)
    (limit : Nat) (jobs : Table ScheduledRow.jobKey) : List ScheduledRow :=
  ((jobs.rows.filter fun job => job.due schedule univ nowText && !blocked jobs job).mergeSort
    claimedBefore).take limit

def ScheduledRow.lease (leaseUntil nowText : String) (job : ScheduledRow) : ScheduledRow :=
  { job with
    status := .running, attemptCount := job.attemptCount + 1, leaseUntil := some leaseUntil,
    updatedAt := nowText }

/-- `_optional_request`. -/
def optionalRequest (loads : String → Option Json) : Option String → Except Err (Option Json)
  | none => .ok none
  | some text => match loads text with
    | none => .error (.state "prepared request state contains invalid JSON")
    | some (.obj fields) => .ok (some (.obj fields))
    | some _ => .error (.state "prepared request state must be a JSON object")

/-- The job a selected row is handed out as. -/
def SchedulerState.handOut (s : SchedulerState) (loads : String → Option Json)
    (univ : SymbolUniverse) (row : ScheduledRow) : Except Err ScheduledJob := do
  let checkpoint := s.checkpoints.find?
    (row.provider, row.datasetKey, univ.universeId, univ.universeVersion, row.symbol)
  let request ← optionalRequest loads row.preparedRequest
  return ⟨row, checkpoint.map (·.tradeDate), request⟩

/-- `claim_due`. -/
def SchedulerState.claimDue (s : SchedulerState) (loads : String → Option Json)
    (schedule : ScheduleConfig) (univ : SymbolUniverse) (now : Datetime) (limit : Int) :
    Except Err (List ScheduledJob × SchedulerState) := do
  ensure (decide (1 ≤ limit ∧ limit ≤ univ.symbols.length))
    (.schedule "claim limit must fit within the governed universe")
  let nowText ← datetimeText now
  let leaseUntil ← datetimeText (← now.addSeconds schedule.leaseSeconds)
  let jobs := expireLeases schedule univ nowText s.jobs
  let rows := selectDue schedule univ nowText limit.toNat jobs
  let leased := rows.map (·.lease leaseUntil nowText)
  let handed ← leased.mapM (s.handOut loads univ)
  return (handed, { s with
    jobs := jobs.update (fun job => rows.any (·.jobKey == job.jobKey)) (·.lease leaseUntil nowText) })

/-! ## What a claim leaves -/

variable {s s' : SchedulerState} {loads : String → Option Json} {schedule : ScheduleConfig}
variable {univ : SymbolUniverse} {now : Datetime} {limit : Int} {handed : List ScheduledJob}
variable {nowText : String} {job : ScheduledRow}

/-- The jobs that wait once the leases are given up. -/
def SchedulerState.candidates (s : SchedulerState) (schedule : ScheduleConfig)
    (univ : SymbolUniverse) (nowText : String) : List ScheduledRow :=
  let jobs := expireLeases schedule univ nowText s.jobs
  jobs.rows.filter fun job => job.due schedule univ nowText && !blocked jobs job

theorem claimDue_jobs (h : s.claimDue loads schedule univ now limit = .ok (handed, s')) :
    ∃ nowText leaseUntil, datetimeText now = .ok nowText ∧
      ∀ r, r ∈ s'.jobs ↔ ∃ q ∈ expireLeases schedule univ nowText s.jobs,
        r = if (selectDue schedule univ nowText limit.toNat
          (expireLeases schedule univ nowText s.jobs)).any (·.jobKey == q.jobKey) = true
        then q.lease leaseUntil nowText else q := by
  obtain ⟨_, _, h⟩ := ok_bind h
  obtain ⟨nowText, hnow, h⟩ := ok_bind h
  obtain ⟨later, _, h⟩ := ok_bind h
  obtain ⟨leaseUntil, _, h⟩ := ok_bind h
  obtain ⟨_, _, h⟩ := ok_bind h
  cases h
  exact ⟨nowText, leaseUntil, hnow, fun r => @Table.mem_update _ _ _ _ _
    (·.lease leaseUntil nowText) (fun _ => rfl) r⟩

theorem mem_selectDue {n : Nat} (h : job ∈ selectDue schedule univ nowText n
    (expireLeases schedule univ nowText s.jobs)) : job ∈ s.candidates schedule univ nowText :=
  List.mem_mergeSort.mp (List.mem_of_mem_take h)

/-- A row is rewritten when its lease is given up, or when it is selected. -/
theorem mem_claimDue (h : s.claimDue loads schedule univ now limit = .ok (handed, s'))
    (hnow : datetimeText now = .ok nowText) (hjob : job ∈ s.jobs) :
    job ∈ s'.jobs ↔ job.expired schedule univ nowText = false ∧
      job ∉ selectDue schedule univ nowText limit.toNat
        (expireLeases schedule univ nowText s.jobs) := by
  obtain ⟨text, leaseUntil, htext, hjobs⟩ := claimDue_jobs h
  cases hnow.symm.trans htext
  have hmem : (if job.expired schedule univ nowText then job.giveUp nowText else job) ∈
      expireLeases schedule univ nowText s.jobs := Table.mem_update.mpr ⟨job, hjob, rfl⟩
  have hrow : ∀ q ∈ expireLeases schedule univ nowText s.jobs, q.jobKey = job.jobKey →
      q = if job.expired schedule univ nowText then job.giveUp nowText else job := by
    intro q hq hkey
    refine Table.eq_of_key hq hmem (hkey.trans ?_)
    split <;> rfl
  rw [hjobs]
  constructor
  · rintro ⟨q, hq, he⟩
    split at he
    · rename_i hsel
      have hkey : q.jobKey = job.jobKey := (congrArg ScheduledRow.jobKey he).symm
      have hcount : job.attemptCount = q.attemptCount + 1 := congrArg ScheduledRow.attemptCount he
      rw [hrow q hq hkey] at hcount
      split at hcount <;> exact absurd hcount (Nat.ne_of_lt (Nat.lt_succ_self _))
    · rename_i hsel
      subst he
      have hself := hrow job hq rfl
      refine ⟨Bool.eq_false_iff.mpr fun hexp => ?_, fun hin => hsel (List.any_eq_true.mpr
        ⟨job, hin, beq_self_eq_true _⟩)⟩
      rw [if_pos hexp] at hself
      have hstatus : job.status = .running := by
        simp only [ScheduledRow.expired, Bool.and_eq_true, beq_iff_eq] at hexp
        exact hexp.1.2
      rw [hself] at hstatus
      cases hstatus
  · rintro ⟨hexp, hsel⟩
    rw [if_neg (by rw [hexp]; exact Bool.false_ne_true)] at hmem
    refine ⟨job, hmem, (if_neg fun hany => hsel ?_).symm⟩
    obtain ⟨r, hr, hkey⟩ := List.any_eq_true.mp hany
    obtain ⟨hrow', -⟩ := List.mem_filter.mp (mem_selectDue hr)
    exact Table.eq_of_key hrow' hmem (beq_iff_eq.mp hkey) ▸ hr

@[simp] theorem notAfter_text {text : String} : notAfter (some text) nowText = true ↔ text ≤ nowText := by
  simp [notAfter]

/-- `claim_due` gives up a lease when its text is not after the text of now. -/
theorem lease_kept_iff (h : s.claimDue loads schedule univ now limit = .ok (handed, s'))
    (hnow : datetimeText now = .ok nowText) (hjob : job ∈ s.jobs)
    (hgov : job.governed schedule univ = true) (hstatus : job.status = .running)
    {text : String} (htext : job.leaseUntil = some text) :
    job ∉ s'.jobs ↔ text ≤ nowText := by
  have hexp : job.expired schedule univ nowText = true ↔ text ≤ nowText := by
    unfold ScheduledRow.expired
    rw [hgov, hstatus, htext, beq_self_eq_true, Bool.true_and, Bool.true_and, notAfter_text]
  rw [← hexp, mem_claimDue h hnow hjob, not_and_or, Bool.not_eq_false, not_not]
  refine or_iff_left fun hsel => ?_
  obtain ⟨-, hdue⟩ := List.mem_filter.mp (mem_selectDue hsel)
  simp [ScheduledRow.due, ScheduledRow.waiting, hstatus] at hdue

theorem due_iff (hgov : job.governed schedule univ = true) (hwaiting : job.waiting = true)
    {text : String} (htext : job.nextAttemptAt = some text) :
    job.due schedule univ nowText = true ↔ text ≤ nowText := by
  unfold ScheduledRow.due
  rw [hgov, hwaiting, htext, Bool.true_and, Bool.true_and, notAfter_text]

/-- A waiting job that nothing blocks is leased when it is due. -/
theorem leased_iff_due (h : s.claimDue loads schedule univ now limit = .ok (handed, s'))
    (hnow : datetimeText now = .ok nowText) (hjob : job ∈ s.jobs) (hwaiting : job.waiting = true)
    (hfree : blocked (expireLeases schedule univ nowText s.jobs) job = false)
    (hroom : (s.candidates schedule univ nowText).length ≤ limit) :
    job ∉ s'.jobs ↔ job.due schedule univ nowText = true := by
  have hexp : job.expired schedule univ nowText = false := by
    unfold ScheduledRow.waiting at hwaiting
    unfold ScheduledRow.expired
    cases hstatus : job.status <;> simp_all
  have hmem : job ∈ expireLeases schedule univ nowText s.jobs :=
    Table.mem_update.mpr ⟨job, hjob, by rw [hexp]; rfl⟩
  rw [mem_claimDue h hnow hjob, not_and_or, hexp, not_not]
  simp only [not_true_eq_false, false_or]
  constructor
  · intro hsel
    obtain ⟨-, hdue⟩ := List.mem_filter.mp (mem_selectDue hsel)
    exact (Bool.and_eq_true_iff.mp hdue).1
  · intro hdue
    have hlen : (s.candidates schedule univ nowText).length ≤ limit.toNat := by omega
    unfold selectDue
    rw [List.take_of_length_le (by rwa [List.length_mergeSort]), List.mem_mergeSort, List.mem_filter]
    exact ⟨hmem, by rw [hdue, hfree]; rfl⟩

/-! ## Texts and instants -/

/-- Stored times compare with now as instants, and so do leases and next attempts in a claim,
unless both times are in one second and exactly one of them is the whole second. -/
theorem claimDue_orders_iff {time : Datetime} {text : String} (htime : datetimeText time = .ok text)
    (hnow : datetimeText now = .ok nowText) :
    ((text ≤ nowText ↔ time.instant ≤ now.instant) ↔
      ¬ UtcTime.Straddles time.instant now.instant) ∧
    ∀ s : SchedulerState, ∀ job ∈ s.jobs, ∀ schedule univ, job.governed schedule univ = true →
      (job.waiting = true → job.nextAttemptAt = some text →
        ((job.due schedule univ nowText = true ↔ time.instant ≤ now.instant) ↔
          ¬ UtcTime.Straddles time.instant now.instant)) ∧
      ∀ loads limit handed s', s.claimDue loads schedule univ now limit = .ok (handed, s') →
        (job.status = .running → job.leaseUntil = some text →
          ((job ∉ s'.jobs ↔ time.instant ≤ now.instant) ↔
            ¬ UtcTime.Straddles time.instant now.instant)) ∧
        (job.waiting = true → job.nextAttemptAt = some text →
          blocked (expireLeases schedule univ nowText s.jobs) job = false →
          (s.candidates schedule univ nowText).length ≤ limit →
          ((job ∉ s'.jobs ↔ time.instant ≤ now.instant) ↔
            ¬ UtcTime.Straddles time.instant now.instant)) := by
  have horder := datetimeText_le_iff htime hnow
  refine ⟨horder, fun s job hjob schedule univ hgov => ⟨fun hwaiting htext => ?_,
    fun loads limit handed s' h => ⟨fun hstatus htext => ?_, fun hwaiting htext hfree hroom => ?_⟩⟩⟩
  · rw [due_iff hgov hwaiting htext]
    exact horder
  · rw [lease_kept_iff h hnow hjob hgov hstatus htext]
    exact horder
  · rw [leased_iff_due h hnow hjob hwaiting hfree hroom, due_iff hgov hwaiting htext]
    exact horder

/-! ## A whole second -/

theorem nine_valid :
    (1 ≤ 2026 ∧ 2026 ≤ 9999) ∧ (1 ≤ 1 ∧ 1 ≤ 12) ∧ 1 ≤ 2 ∧ 2 ≤ monthDays 2026 1 := by
  decide

/-- 2026-01-02, some time after nine o'clock. -/
def nine (seconds micros : Nat) (h : seconds < 60 ∧ micros < 1000000) : Datetime :=
  ⟨⟨⟨2026, 1, 2, nine_valid⟩, 32400 + seconds, micros, by omega⟩, false, some utc⟩

/-- A pending job, due at nine o'clock. -/
def sampleJob : ScheduledRow where
  jobKey := "k"
  slotId := "slot"
  provider := "twelve_data"
  datasetKey := "us_equity_eod"
  workItem := "A"
  targetDataDate := ⟨2026, 1, 1, by decide⟩
  scheduleId := "daily"
  scheduledDate := ⟨2026, 1, 2, nine_valid⟩
  universeId := "u"
  universeVersion := 1
  symbol := "A"
  canonicalSymbol := "A"
  exchange := "X"
  status := .pending
  attemptCount := 0
  nextAttemptAt := some "2026-01-02T09:00:00Z"
  leaseUntil := none
  lastOutcome := none
  preparedRequest := none
  updatedAt := "2026-01-02T09:00:00Z"

def sampleJobs : SchedulerState := ⟨⟨[sampleJob], by decide⟩, .empty⟩

/-- Half a second later the job is not claimed. -/
theorem claimDue_late :
    datetimeText (nine 0 0 (by decide)) = .ok "2026-01-02T09:00:00Z" ∧
    (nine 0 0 (by decide)).instant ≤ (nine 0 500000 (by decide)).instant ∧
    datetimeText (nine 0 500000 (by decide)) = .ok "2026-01-02T09:00:00.500000Z" ∧
    ¬ "2026-01-02T09:00:00Z" ≤ "2026-01-02T09:00:00.500000Z" ∧
    (sampleJobs.claimDue (fun _ => none) ⟨"daily", 60⟩ ⟨"u", 1, ["A"]⟩
      (nine 0 500000 (by decide)) 1).map (·.1.length) = .ok 0 := by
  decide +kernel

/-- A second later it is. -/
theorem claimDue_orders_sample : ∃ handed s',
    sampleJobs.claimDue (fun _ => none) ⟨"daily", 60⟩ ⟨"u", 1, ["A"]⟩ (nine 1 500000 (by decide)) 1 =
      .ok (handed, s') ∧ sampleJob ∉ s'.jobs := by
  have hok : (sampleJobs.claimDue (fun _ => none) ⟨"daily", 60⟩ ⟨"u", 1, ["A"]⟩
      (nine 1 500000 (by decide)) 1).isOk = true := by
    decide +kernel
  cases h : sampleJobs.claimDue (fun _ => none) ⟨"daily", 60⟩ ⟨"u", 1, ["A"]⟩
      (nine 1 500000 (by decide)) 1 with
  | error e =>
    rw [h] at hok
    cases hok
  | ok claimed =>
  obtain ⟨handed, s'⟩ := claimed
  have horder := @claimDue_orders_iff (nine 1 500000 (by decide)) "2026-01-02T09:00:01.500000Z"
    (nine 0 0 (by decide)) "2026-01-02T09:00:00Z" (by decide +kernel) (by decide +kernel)
  have hclaim := (horder.2 sampleJobs sampleJob List.mem_cons_self ⟨"daily", 60⟩ ⟨"u", 1, ["A"]⟩
    (by decide)).2 _ 1 handed s' h
  exact ⟨handed, s', rfl, ((hclaim.2 (by decide) rfl (by decide +kernel) (by decide +kernel)).mpr
    (by decide +kernel)).mpr (by decide +kernel)⟩

end FinDB.Scheduler
