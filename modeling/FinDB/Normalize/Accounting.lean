import FinDB.Normalize.Process

/-! # Every record is counted

A loop over records has many ways out of a record, and each of them passes one counter.
What raises behind a counter ends the whole call: a statement that fails is an
`SQLAlchemyError`, and the assertions hold of records that passed their checks. -/
namespace FinDB.Normalize
open FinDB.Lib

section
variable {ρ ν τ : Type}

/-! ## What stands beside the counters -/

/-- A property that issues, other tables and the loop's bookkeeping do not touch. -/
structure Aside (I : Work ρ ν → Prop) : Prop where
  rest : ∀ w rest, I w → I { w with db := { w.db with rest } }
  issues : ∀ w stored noted, I w →
    I { w with db := { w.db with dqIssues := stored }, result := { w.result with dqIssues := noted } }
  processed : ∀ w n, I w → I { w with processedRecords := n }

variable {I : Work ρ ν → Prop} {S : Services ρ} {runId : Uuid}

theorem Aside.onRest {α : Type} (h : Aside I) (x : EStateM Exn ρ α) : Keeps I (onRest x) :=
  Triple.focus fun rest w hw => h.rest w rest hw

theorem Aside.addIssue (h : Aside I) (instrumentId : Option Uuid) (issue : DQIssueRecord) :
    Keeps I (addIssue runId instrumentId issue) :=
  Triple.modify fun w hw => h.issues w _ _ hw

theorem Aside.addIssues (h : Aside I) (instrumentId : Option Uuid) (issues : List DQIssueRecord) :
    Keeps I (addIssues runId instrumentId issues) := by
  refine Triple.forM_inv fun issue _ => ?_
  exact h.addIssue instrumentId issue

theorem Aside.recordDone (h : Aside I) : Keeps I (recordDone S) := by
  refine Triple.bind (Q := fun _ => I) (Triple.modify fun w hw => h.processed w _ hw) fun _ => ?_
  refine Triple.get fun w => ?_
  split
  · exact (h.onRest S.flush).pre fun _ hw => hw.2
  · exact Triple.pure fun _ hw => hw.2

theorem Aside.precedenceSummary (h : Aside I) : Keeps I (recordPrecedenceRejectionSummary runId) := by
  refine Triple.get fun w => ?_
  simp only
  split
  · exact Triple.pure fun _ hw => hw.2
  · exact (h.addIssue none _).pre fun _ hw => hw.2

theorem Aside.continuityIssue {I : Work ρ EodLocals → Prop} (h : Aside I) (instrumentId : Uuid)
    (r : MappedRecord) : Keeps I (continuityIssue S instrumentId r) := by
  refine Triple.get fun w => ?_
  simp only
  split
  · exact (h.onRest _).pre fun _ hw => hw.2
  · exact Triple.pure fun _ hw => hw.2

/-! ## The counters -/

/-- `n` records are counted, each in one bucket. -/
structure Tally (committed : Db ρ) (total n : Nat) (w : Work ρ ν) : Prop where
  committed : w.committed = committed
  total : w.result.totalRecords = total
  buckets : ∃ bs : List Bucket, bs.length = n ∧ ∀ b, w.result.counts b = bs.count b

variable {c : Db ρ} {total n : Nat}

theorem Tally.aside : Aside (Tally (ν := ν) c total n) :=
  ⟨fun _ _ h => ⟨h.1, h.2, h.3⟩, fun _ _ _ h => ⟨h.1, h.2, h.3⟩, fun _ _ h => ⟨h.1, h.2, h.3⟩⟩

theorem tally_setLocals (f : ν → ν) : Keeps (Tally (ν := ν) c total n) (setLocals f) :=
  Triple.modify fun _ h => ⟨h.1, h.2, h.3⟩

theorem tally_setDb (f : Db ρ → Db ρ) : Keeps (Tally (ν := ν) c total n) (setDb f) :=
  Triple.modify fun _ h => ⟨h.1, h.2, h.3⟩

theorem counts_count (r : NormalizeResult) (b b' : Bucket) :
    (r.count b).counts b' = r.counts b' + if b = b' then 1 else 0 := by
  cases b <;> cases b' <;> rfl

/-- One more record. -/
theorem tally_count (b : Bucket) {E : Exn → Work ρ ν → Prop} :
    Triple (Tally c total n) (count b) (fun _ => Tally c total (n + 1)) E := by
  refine Triple.modify fun w h => ?_
  obtain ⟨bs, hlen, hcount⟩ := h.buckets
  refine ⟨h.committed, ?_, b :: bs, by rw [List.length_cons, hlen], fun b' => ?_⟩
  · have htotal : (w.result.count b).totalRecords = w.result.totalRecords := by cases b <;> rfl
    exact htotal.trans h.total
  · rw [counts_count, hcount b', List.count_cons]
    simp only [beq_iff_eq]

/-- A statement runs, or raises an `SQLAlchemyError`. -/
def SqlOnly (I : Work ρ ν → Prop) (e : Exn) (w : Work ρ ν) : Prop := e = .sqlalchemy ∧ I w

theorem tally_execWrite (write : Canonical.Write) : Triple (Tally (ν := ν) c total n)
    (execWrite S write) (fun _ => Tally c total n) (SqlOnly (Tally c total n)) := by
  refine Triple.get fun w => ?_
  split
  · refine Triple.bind (Q := fun _ => Tally c total n) ?_ fun _ => Triple.pure fun _ h => h
    exact Triple.modify fun _ h => ⟨h.2.1, h.2.2, h.2.3⟩
  · exact Triple.throw fun _ h => ⟨rfl, h.2⟩

theorem tally_upsertStats (instrumentId : Uuid) (excluded : InstrumentStats)
    (update : InstrumentStats → InstrumentStats → InstrumentStats) :
    Triple (Tally (ν := ν) c total n) (upsertStats S instrumentId excluded update)
      (fun _ => Tally c total n) (SqlOnly (Tally c total n)) := by
  refine Triple.get fun w => ?_
  simp only
  split
  · exact Triple.modify fun _ h => ⟨h.2.1, h.2.2, h.2.3⟩
  · exact Triple.throw fun _ h => ⟨rfl, h.2⟩

theorem SqlOnly.tally {e : Exn} {w : Work ρ ν} (h : SqlOnly I e w) : I w := h.2

theorem tally_upsertEod (instrumentId : Uuid) (r : MappedRecord) :
    Keeps (Tally (ν := ν) c total n) (upsertEod S instrumentId r runId) := by
  refine Triple.bind (Tally.aside.onRest _) fun attached => ?_
  split
  · refine Triple.bind ((tally_execWrite _).conseq (fun _ h => h) (fun _ _ h => h)
      fun _ _ h => h.tally) fun applied => ?_
    refine Triple.bind (Q := fun _ => Tally c total n) ?_ fun _ => Keeps.pure
    split
    · exact (tally_upsertStats _ _ _).conseq (fun _ h => h) (fun _ _ h => h) fun _ _ h => h.tally
    · exact Keeps.pure
  · exact Keeps.throw

theorem tally_upsertMinute (instrumentId : Uuid) (r : MarketMinuteRecord) :
    Keeps (Tally (ν := ν) c total n) (upsertMinute S instrumentId r runId) := by
  unfold upsertMinute
  split
  · exact (tally_execWrite _).conseq (fun _ h => h) (fun _ _ h => h) fun _ _ h => h.tally
  · exact Keeps.throw

/-! ## One record -/

/-- What a handler may be given: an `SQLAlchemyError` behind a counter, or anything else
before one. -/
def Uncounted (c : Db ρ) (total n : Nat) (e : Exn) (w : Work ρ ν) : Prop :=
  w.committed = c ∧ (e = .sqlalchemy ∨ Tally c total n w)

theorem Tally.uncounted {e : Exn} {w : Work ρ ν} (h : Tally c total n w) : Uncounted c total n e w :=
  ⟨h.committed, Or.inr h⟩

/-- A record that raises nothing, or before it is counted. -/
def CountsOne (c : Db ρ) (total n : Nat) (x : Norm ρ ν Unit) : Prop :=
  Triple (Tally c total n) x (fun _ => Tally c total (n + 1)) (Uncounted c total n)

/-- What comes before the counter. -/
theorem CountsOne.after {α : Type} {x : Norm ρ ν α} {f : α → Norm ρ ν Unit}
    (hx : Keeps (Tally c total n) x) (hf : ∀ a, CountsOne c total n (f a)) :
    CountsOne c total n (x >>= f) :=
  Triple.bind (hx.conseq (fun _ h => h) (fun _ _ h => h) fun _ _ h => h.uncounted) hf

theorem CountsOne.get {f : Work ρ ν → Norm ρ ν Unit} (h : ∀ w, CountsOne c total n (f w)) :
    CountsOne c total n (get >>= f) :=
  Triple.get fun w => Triple.pre (h w) fun _ hw => hw.2

theorem CountsOne.throw {e : Exn} : CountsOne (ν := ν) c total n (throw e) :=
  Triple.throw fun _ h => h.uncounted

/-- Issues, then the counter. -/
theorem countsOne_failed (instrumentId : Option Uuid) (issues : List DQIssueRecord) :
    CountsOne (ν := ν) c total n (addIssues runId instrumentId issues >>= fun _ => count .failed) :=
  CountsOne.after (Tally.aside.addIssues _ _) fun _ => tally_count _

theorem eodBody_counts (checks : OhlcChecks) (r : MappedRecord) :
    CountsOne c total n (eodBody S checks runId r) := by
  refine CountsOne.after (tally_setLocals _) fun _ => CountsOne.get fun w => ?_
  refine CountsOne.after (tally_setLocals _) fun _ => ?_
  generalize (validateEod S.lang checks w.locals.seenKeys r).1 = issues
  split
  · exact CountsOne.throw
  · split
    · exact countsOne_failed _ _
    · refine CountsOne.after (Tally.aside.onRest _) fun instrument => ?_
      refine CountsOne.after (tally_setLocals _) fun _ => ?_
      split
      · exact countsOne_failed _ _
      · refine CountsOne.after (Tally.aside.onRest _) fun _ => ?_
        refine CountsOne.after (Tally.aside.continuityIssue _ r) fun continuity => ?_
        refine CountsOne.after (Tally.aside.addIssues _ _) fun _ => ?_
        exact CountsOne.after (tally_upsertEod _ r) fun applied => tally_count _

theorem tally_noteApplied {instrumentId : Uuid} {r : MarketMinuteRecord} {start : UtcTime} {close : Dec}
    (hstart : r.barStartTime = some start) (hclose : r.close = some close)
    {E : Exn → Work ρ MinuteLocals → Prop} :
    Triple (Tally c total n) (noteApplied instrumentId r) (fun _ => Tally c total n) E := by
  unfold noteApplied
  rw [hstart, hclose]
  exact Triple.modify fun _ h => ⟨h.1, h.2, h.3⟩

theorem minuteBody_counts (raw : Json) (r : MarketMinuteRecord) :
    CountsOne c total n (minuteBody S raw runId r) := by
  refine CountsOne.after (tally_setLocals _) fun _ => CountsOne.get fun w => ?_
  refine CountsOne.after (tally_setLocals _) fun _ => ?_
  split
  · exact countsOne_failed _ _
  · rename_i hpass
    obtain ⟨start, close, hstart, _, _, hclose, _⟩ :=
      present_of_validateMinute (Bool.eq_false_iff.mpr hpass)
    refine CountsOne.after (Tally.aside.onRest _) fun instrument => ?_
    refine CountsOne.after (tally_setLocals _) fun _ => ?_
    simp only
    split
    · exact countsOne_failed _ _
    · refine CountsOne.after (Tally.aside.onRest _) fun _ => ?_
      refine CountsOne.after (Tally.aside.addIssues _ _) fun _ => ?_
      refine CountsOne.after (tally_upsertMinute _ r) fun applied => ?_
      split
      · -- the assertions behind the counter hold of a record that passed
        exact (tally_count _).bind fun _ => tally_noteApplied hstart hclose
      · exact tally_count _

theorem futuresBody_counts (r : FuturesEODRow) : CountsOne c total n (futuresBody S runId r) := by
  refine CountsOne.after (Tally.aside.onRest _) fun instrument => ?_
  refine CountsOne.after (tally_setLocals _) fun _ => ?_
  refine CountsOne.after (Tally.aside.onRest _) fun ids => ?_
  refine CountsOne.after ((tally_execWrite _).conseq (fun _ h => h) (fun _ _ h => h)
    fun _ _ h => h.tally) fun applied => ?_
  split
  · -- a statement that fails behind the counter is no record of its own
    refine (tally_count _).bind fun _ => ?_
    exact (tally_upsertStats _ _ _).conseq (fun _ h => h) (fun _ _ h => h)
      fun _ _ h => ⟨h.2.committed, Or.inl h.1⟩
  · exact tally_count _

/-! ## Handlers -/

/-- A handler counts what was not counted, or raises again. -/
def Recovers (c : Db ρ) (total n : Nat) (h : Exn → Norm ρ ν Unit) : Prop :=
  ∀ e, Triple (Uncounted c total n e) (h e) (fun _ => Tally c total (n + 1))
    fun _ w => w.committed = c

theorem committed_aside : Aside (fun w : Work ρ ν => w.committed = c) :=
  ⟨fun _ _ h => h, fun _ _ _ h => h, fun _ _ h => h⟩

/-- An `SQLAlchemyError` is raised again. -/
theorem reraise {e : Exn} : Triple (Uncounted c total n e) (throw e : Norm ρ ν Unit)
    (fun _ => Tally c total (n + 1)) fun _ w => w.committed = c :=
  Triple.throw fun _ h => h.1

/-- Anything else was raised before the counter. -/
theorem uncounted_tally {e : Exn} (he : e ≠ .sqlalchemy) {w : Work ρ ν}
    (h : Uncounted c total n e w) : Tally c total n w := h.2.resolve_left he

theorem Tally.raised {α : Type} {x : Norm ρ ν α} {Q : α → Work ρ ν → Prop}
    (h : Triple (Tally c total n) x Q fun _ => Tally c total n) :
    Triple (Tally c total n) x Q fun _ w => w.committed = c :=
  h.conseq (fun _ h => h) (fun _ _ h => h) fun _ _ h => h.committed

theorem eodHandler_recovers (r : MappedRecord) : Recovers c total n (eodHandler S runId r) := by
  intro e
  cases e with
  | sqlalchemy => exact reraise
  | eodPartitionUnavailable year => exact reraise
  | other type_ message =>
    refine Triple.pre ?_ fun w h => uncounted_tally (fun he => by cases he) h
    refine (tally_count .failed).bind fun _ => Triple.get fun w => ?_
    exact (Tally.raised (Tally.aside.addIssue _ _)).pre fun _ h => h.2

theorem minuteHandler_failure (type_ : String) (r : MarketMinuteRecord) :
    Triple (Tally c total n) (minuteHandler.failure runId r type_) (fun _ => Tally c total (n + 1))
      fun _ w => w.committed = c := by
  refine (tally_count .failed).bind fun _ => Triple.get fun w => ?_
  exact (Tally.raised (Tally.aside.addIssue _ _)).pre fun _ h => h.2

theorem minuteHandler_recovers (r : MarketMinuteRecord) :
    Recovers c total n (minuteHandler runId r) := by
  intro e
  cases e with
  | sqlalchemy => exact reraise
  | eodPartitionUnavailable year =>
    exact (minuteHandler_failure _ r).pre fun w h => uncounted_tally (fun he => by cases he) h
  | other type_ message =>
    exact (minuteHandler_failure _ r).pre fun w h => uncounted_tally (fun he => by cases he) h

theorem futuresHandler_failure (description : String) (raw : Json) :
    Triple (Tally c total n) (futuresHandler.failure runId raw description)
      (fun _ => Tally c total (n + 1)) fun _ w => w.committed = c := by
  refine Triple.get fun w => ?_
  refine Triple.bind (Q := fun _ => Tally c total n) ?_ fun _ => tally_count .failed
  exact (Tally.raised (Tally.aside.addIssue _ _)).pre fun _ h => h.2

theorem futuresHandler_recovers (raw : Json) :
    Recovers c total n (futuresHandler runId raw) := by
  intro e
  cases e with
  | sqlalchemy => exact reraise
  | eodPartitionUnavailable year =>
    exact (futuresHandler_failure _ raw).pre fun w h => uncounted_tally (fun he => by cases he) h
  | other type_ message =>
    exact (futuresHandler_failure _ raw).pre fun w h => uncounted_tally (fun he => by cases he) h

/-- A record in its `try` is counted once, or ends the call. -/
def CountsRecord (c : Db ρ) (total : Nat) (each : τ → Norm ρ ν Unit) : Prop :=
  ∀ n x, Triple (Tally c total n) (each x) (fun _ => Tally c total (n + 1)) fun _ w => w.committed = c

theorem guarded_counts {body : Norm ρ ν Unit} {handler : Exn → Norm ρ ν Unit}
    (hb : CountsOne c total n body) (hh : Recovers c total n handler) :
    Triple (Tally c total n) (guarded S body handler) (fun _ => Tally c total (n + 1))
      fun _ w => w.committed = c :=
  Triple.cleanup (hb.tryCatch hh) (fun _ => Tally.raised Tally.aside.recordDone)
    fun _ => committed_aside.recordDone

theorem futuresRecord_counts : CountsRecord c total (futuresRecord S runId) := by
  intro n raw
  refine (Tally.raised (tally_setLocals _)).bind fun _ => ?_
  refine (Tally.raised (Tally.aside.onRest _)).bind fun row => ?_
  split
  · refine Triple.bind (Q := fun _ => Tally c total n) ?_ fun _ => tally_count .failed
    exact Tally.raised (Tally.aside.addIssue _ _)
  · exact (futuresBody_counts _).tryCatch (futuresHandler_recovers raw)

/-! ## The call -/

/-- The status columns do not count either. -/
theorem tally_setRun (runs : Db ρ → Uuid → Option RunRow) : Keeps (Tally (ν := ν) c total n)
    (setDb fun db => { db with runs := runs db }) := tally_setDb _

theorem tally_updateRunStatus (status : RunStatus) (t s f : Nat) (message : Option String) :
    Keeps (Tally (ν := ν) c total n) (updateRunStatus S runId status t s f message) := by
  refine Triple.get fun w => ?_
  split
  · exact Triple.pure fun _ h => h.2
  · refine Triple.bind (Q := fun _ => Tally c total n) ?_ fun _ => Tally.aside.onRest _
    exact (tally_setRun fun db => Function.update db.runs runId _).pre fun _ h => h.2

/-- The last status stands on the run, and the services behind it leave it there. -/
theorem updateRunStatus_status (result : NormalizeResult) (status : RunStatus) (t s f : Nat)
    (message : Option String) :
    Triple (fun w : Work ρ ν => w.committed = c ∧ w.result = result)
      (updateRunStatus S runId status t s f message)
      (fun _ w => w.committed = c ∧ w.result = result ∧
        ∀ run, w.db.runs runId = some run → run.status = status)
      fun _ w => w.committed = c := by
  refine Triple.get fun w => ?_
  split
  · rename_i hnone
    refine Triple.pure fun w' hw => ⟨hw.2.1, hw.2.2, fun run hrun => ?_⟩
    rw [hw.1, hnone] at hrun
    cases hrun
  · rename_i run _
    let I : Work ρ ν → Prop := fun w => w.committed = c ∧ w.result = result ∧
      ∀ run, w.db.runs runId = some run → run.status = status
    have hkeeps : Keeps I (onRest (S.runServices runId (run.set status t s f message S.now))) :=
      Triple.focus fun rest w hw => hw
    refine Triple.bind (Q := fun _ => I) (Triple.modify fun w' hw => ⟨hw.2.1, hw.2.2, ?_⟩) fun _ =>
      hkeeps.conseq (fun _ h => h) (fun _ _ h => h) fun _ _ h => h.1
    intro run' hrun'
    simp only [Function.update_self, Option.some.injEq] at hrun'
    rw [← hrun']
    rfl

/-- What a call that returns leaves: the records are counted, and the run is completed
exactly when none of them failed. -/
def Settled (runId : Uuid) (mapped : Nat) (result : NormalizeResult) (db : Db ρ) : Prop :=
  result.totalRecords = mapped ∧
  (∃ bs : List Bucket, bs.length = mapped ∧ ∀ b, result.counts b = bs.count b) ∧
  ∀ run, db.runs runId = some run → (run.status = .completed ↔ result.failedRecords = 0)

theorem commitSession_keeps {J : Work ρ ν → Prop}
    (hJ : ∀ w, J w → J { w with committed := w.db }) :
    Triple (fun w => J w ∧ w.committed = c) (commitSession S) (fun _ => J)
      fun _ w => w.committed = c := by
  refine Triple.get fun w => ?_
  split
  · exact Triple.modify fun w' hw => hJ w' hw.2.1
  · exact Triple.throw fun _ hw => hw.2.2

theorem rollingBack_spec {P : Work ρ ν → Prop} {Q : Unit → Work ρ ν → Prop} {x : Norm ρ ν Unit}
    (h : Triple P x Q fun _ w => w.committed = c) :
    Triple P (rollingBack x) Q fun _ w => w.committed = c ∧ w.db = c := by
  refine h.tryCatch fun e => ?_
  refine Triple.bind (Q := fun _ w => w.committed = c ∧ w.db = c)
    (Triple.modify fun w hw => ⟨hw, hw⟩) fun _ => Triple.throw fun _ hw => hw

theorem processWith_accounts {commit : Bool} {load : Norm ρ ν (List τ)} {each : τ → Norm ρ ν Unit}
    {settle : Norm ρ ν Unit} {summarize : List DQIssueRecord → Option String} {m : Option Nat}
    (hload : Triple (Tally c 0 0) load (fun records w => Tally c 0 0 w ∧ m = some records.length)
      fun _ w => w.committed = c)
    (heach : ∀ total, CountsRecord c total each)
    (hsettle : ∀ total n, Keeps (Tally c total n) settle) :
    Triple (Tally c 0 0) (processWith S runId commit load each settle summarize)
      (fun _ w => ∃ mapped, m = some mapped ∧ Settled runId mapped w.result w.db)
      fun _ w => w.committed = c ∧ w.db = c := by
  refine rollingBack_spec ?_
  refine (Tally.raised (tally_updateRunStatus _ _ _ _ _)).bind fun _ => hload.bind fun records => ?_
  refine Triple.of_pre (φ := m = some records.length) (fun _ h => h.2) fun hm => ?_
  refine Triple.bind (Q := fun _ => Tally c records.length 0) ?_ fun _ => ?_
  · exact Triple.modify fun w h => ⟨h.1.committed, rfl, h.1.buckets⟩
  refine Triple.bind (Triple.forM (fun done => Tally c records.length done.length)
    fun done x _ => ?_) fun _ => ?_
  · have hone := heach records.length done.length x
    rwa [← List.length_singleton, ← List.length_append] at hone
  refine (Tally.raised (hsettle _ _)).bind fun _ => ?_
  refine (Tally.raised Tally.aside.precedenceSummary).bind fun _ => Triple.get fun w => ?_
  refine Triple.of_pre (φ := Tally c records.length records.length w)
    (fun t h => h.1 ▸ h.2) fun hw => ?_
  simp only
  let status : RunStatus := if w.result.failedRecords = 0 then .completed else .completedWithErrors
  let J : Work ρ ν → Prop := fun w' => w'.result = w.result ∧
    ∀ run, w'.db.runs runId = some run → run.status = status
  have hsettled : ∀ w', J w' → ∃ mapped, m = some mapped ∧ Settled runId mapped w'.result w'.db := by
    rintro w' ⟨hresult, hruns⟩
    refine ⟨records.length, hm, ?_, ?_, fun run hrun => ?_⟩
    · rw [hresult, hw.total]
    · rw [hresult]
      exact hw.buckets
    · rw [hruns run hrun, hresult]
      simp only [status]
      split
      · rename_i h0
        exact iff_of_true rfl h0
      · rename_i h0
        exact iff_of_false (fun h => by cases h) h0
  refine Triple.bind (Q := fun _ w' => J w' ∧ w'.committed = c) ?_ fun _ => ?_
  · exact (updateRunStatus_status w.result status _ _ _ _).conseq
      (fun t h => ⟨h.2.committed, congrArg Work.result h.1⟩) (fun _ _ h => ⟨h.2, h.1⟩) fun _ _ h => h
  · split
    · exact (commitSession_keeps fun w' h => h).post fun _ w' h => hsettled w' h
    · exact Triple.pure fun w' h => hsettled w' h.1

/-- The program of a normalizer ends so from a session. -/
theorem inSession_settled {x : Norm ρ ν Unit} {locals : ν} {m : Option Nat} (s : Session ρ)
    (h : Triple (Tally s.committed 0 0) x
      (fun _ w => ∃ mapped, m = some mapped ∧ Settled runId mapped w.result w.db)
      fun _ w => w.committed = s.committed ∧ w.db = s.committed) :
    match inSession x locals s with
    | (.ok result, t) => ∃ mapped, m = some mapped ∧ Settled runId mapped result t.db
    | (.error _, t) => t.committed = s.committed ∧ t.db = s.committed := by
  have hstart : Tally s.committed 0 0 (⟨s.committed, s.db, .empty, 0, locals⟩ : Work ρ ν) :=
    ⟨rfl, rfl, [], rfl, fun b => by cases b <;> rfl⟩
  have hrun := h _ hstart
  unfold inSession
  cases hx : x ⟨s.committed, s.db, .empty, 0, locals⟩ with
  | ok a w =>
    rw [hx] at hrun
    exact hrun
  | error e w =>
    rw [hx] at hrun
    exact hrun

theorem mapped_keeps {r : Except MappingError (List τ)} :
    Triple (Tally (ν := ν) c 0 0) (mapped r)
      (fun records w => Tally c 0 0 w ∧ r.toOption.map List.length = some records.length)
      fun _ w => w.committed = c := by
  unfold mapped
  split
  · exact Triple.pure fun _ h => ⟨h, rfl⟩
  · exact Triple.throw fun _ h => h.committed

theorem processEod_settled (checks : OhlcChecks) (raw : Json) (commit : Bool) :
    Triple (Tally c 0 0) (processEod S checks raw runId commit)
      (fun _ w => ∃ mapped, (mapEodFields S.lang S.mapping raw).toOption.map List.length = some mapped ∧
        Settled runId mapped w.result w.db)
      fun _ w => w.committed = c ∧ w.db = c := by
  refine processWith_accounts mapped_keeps (fun total n r => ?_) fun _ _ => Keeps.pure
  exact guarded_counts (eodBody_counts checks r) (eodHandler_recovers r)

theorem processMinute_settled (raw : Json) (commit : Bool) :
    Triple (Tally c 0 0) (processMinute S raw runId commit)
      (fun _ w => ∃ mapped, (mapMinuteFields S.lang S.mapping raw).toOption.map List.length = some mapped ∧
        Settled runId mapped w.result w.db)
      fun _ w => w.committed = c ∧ w.db = c := by
  refine processWith_accounts ?_ (fun total n r => ?_) fun total n => ?_
  · refine mapped_keeps.bind fun records => ?_
    refine Triple.bind (Q := fun _ w => Tally c 0 0 w ∧ _) ?_ fun _ => Triple.pure fun _ h => h
    exact Triple.modify fun w h => ⟨⟨h.1.committed, h.1.total, h.1.buckets⟩, h.2⟩
  · exact guarded_counts (minuteBody_counts raw r) (minuteHandler_recovers r)
  · refine Triple.get fun w => Triple.pre (Triple.forM_inv fun e _ => ?_) fun _ h => h.2
    exact (tally_upsertStats _ _ _).conseq (fun _ h => h) (fun _ _ h => h) fun _ _ h => h.tally

theorem processFutures_settled (raw : Json) (commit : Bool) :
    Triple (Tally c 0 0) (processFutures S raw runId commit)
      (fun _ w => ∃ mapped, some (dataItems raw).length = some mapped ∧
        Settled runId mapped w.result w.db)
      fun _ w => w.committed = c ∧ w.db = c :=
  processWith_accounts (Triple.pure fun _ h => ⟨h, rfl⟩) (fun _ => futuresRecord_counts)
    fun _ _ => Keeps.pure

theorem length_eq_counts (bs : List Bucket) :
    bs.length = bs.count .success + bs.count .failed + bs.count .rejected := by
  induction bs with
  | nil => rfl
  | cons b bs ih =>
    rw [List.length_cons, List.count_cons, List.count_cons, List.count_cons, ih]
    cases b <;> simp <;> omega

/-- What a call promises, of its answer and the session it leaves. -/
def Accounts (S : Services ρ) (normalizer : Normalizer) (raw : Json) (runId : Uuid) (s : Session ρ)
    (answer : Except Exn NormalizeResult × Session ρ) : Prop :=
  match answer with
  | (.ok result, t) =>
    mappedRecords S normalizer raw = some result.totalRecords ∧
    result.totalRecords =
      result.successRecords + result.failedRecords + result.precedenceRejectedRecords ∧
    (∃ bs : List Bucket, bs.length = result.totalRecords ∧ ∀ b, result.counts b = bs.count b) ∧
    ∀ run, t.db.runs runId = some run → (run.status = .completed ↔ result.failedRecords = 0)
  | (.error _, t) => t.committed = s.committed ∧ t.db = s.committed

theorem accounts_of_settled {normalizer : Normalizer} {raw : Json} {s : Session ρ}
    {answer : Except Exn NormalizeResult × Session ρ}
    (h : match answer with
      | (.ok result, t) => ∃ mapped, mappedRecords S normalizer raw = some mapped ∧
        Settled runId mapped result t.db
      | (.error _, t) => t.committed = s.committed ∧ t.db = s.committed) :
    Accounts S normalizer raw runId s answer := by
  obtain ⟨r, t⟩ := answer
  cases r with
  | error e => exact h
  | ok result =>
    obtain ⟨mapped, hmapped, htotal, ⟨bs, hlen, hcounts⟩, hruns⟩ := h
    refine ⟨by rw [hmapped, htotal], ?_, ⟨bs, by rw [hlen, htotal], hcounts⟩, hruns⟩
    have hs : result.successRecords = bs.count .success := hcounts .success
    have hf : result.failedRecords = bs.count .failed := hcounts .failed
    have hp : result.precedenceRejectedRecords = bs.count .rejected := hcounts .rejected
    rw [htotal, ← hlen, hs, hf, hp]
    exact length_eq_counts bs

/-- **Every record is counted.** A call that returns has put each of its mapped records in
one bucket, and the run is completed exactly when none failed. A call that raises leaves
what was committed before. -/
theorem process_accounts (S : Services ρ) (normalizer : Normalizer) (raw : Json) (runId : Uuid)
    (commit : Bool) (s : Session ρ) :
    Accounts S normalizer raw runId s (process S normalizer raw runId commit s) := by
  cases normalizer with
  | marketEod => exact accounts_of_settled (inSession_settled s (processEod_settled _ raw commit))
  | marketEodV2 => exact accounts_of_settled (inSession_settled s (processEod_settled _ raw commit))
  | marketMinute => exact accounts_of_settled (inSession_settled s (processMinute_settled raw commit))
  | futuresEod => exact accounts_of_settled (inSession_settled s (processFutures_settled raw commit))

end

end FinDB.Normalize
