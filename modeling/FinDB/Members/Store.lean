import FinDB.Lib.Machine
import FinDB.Lib.Raise
import FinDB.Lib.Table
import FinDB.Vocabulary

/-! # The store of planned members

A plan is recorded with one row of work for each of its members. A round claims the rows one
after another, prepares the body of a member, delivers it and finishes the row; a plan is dirty
while the source has not evaluated what its rows have reached. Every method is one transaction. -/
namespace FinDB.Members
open FinDB.Lib

abbrev Bytes := List UInt8

/-- `FullMarketStateError`. -/
structure Err where
  message : String
deriving DecidableEq, Repr

def FULL_WORK_MAX_ATTEMPTS : Nat := 5

def FULL_WORK_NO_DATA_BREAKER : Nat := 20

/-- `FULL_WORK_NO_DATA_RETRY_DELAYS`, in seconds. -/
def noDataRetryDelays : List Nat := [1800, 3600, 3600, 7200]

/-! ## The tables -/

inductive WorkStatus where
  | pending | prepared | complete | manual
deriving DecidableEq, Repr

/-- `full_work`. -/
structure Work where
  key : String
  provider : String
  planId : String
  memberKey : String
  status : WorkStatus
  attempts : Nat
  leaseUntil : Instant
  body : Option Bytes
  bodySha256 : Option String
  receipt : Option String
  reason : Option String
  nextAt : Instant

/-- `status IN ('complete','manual')`. -/
def WorkStatus.terminal : WorkStatus → Bool
  | .complete | .manual => true
  | _ => false

/-- `full_plan`. -/
structure SavedPlan where
  planId : String
  provider : String
  dataset : String
  tradeDate : String
  body : Bytes
  complete : Bool
  late : Bool

/-- `full_plan_reconcile`. -/
structure Reconcile where
  planId : String
  dirty : Bool

/-- `full_work_receipt`. -/
structure SequenceReceipt where
  key : String
  idempotencyKey : String
  runId : String

def SequenceReceipt.identity (r : SequenceReceipt) : String × String := (r.key, r.idempotencyKey)

/-- `full_empty_outcome`. -/
structure EmptyOutcome where
  workKey : String
  exhausted : Bool
  nextAt : Instant
  reason : String

/-- `full_provider_outage`. -/
structure Outage where
  planId : String
  since : Instant

/-- `full_no_data_trip`. -/
structure Trip where
  planId : String
  trips : Nat

/-- `full_member_repair`. -/
structure MemberRepair where
  repairId : String
  workKey : String
  originalAttempts : Nat

/-- `full_schedule`, without the batch that is only reported. -/
structure Schedule where
  scope : String
  cursor : Nat

structure Store where
  works : Table Work.key
  plans : Table SavedPlan.planId
  reconcile : Table Reconcile.planId
  receipts : Table SequenceReceipt.identity
  emptyOutcomes : Table EmptyOutcome.workKey
  outages : Table Outage.planId
  trips : Table Trip.planId
  repairs : Table MemberRepair.repairId
  schedules : Table Schedule.scope

def Store.empty : Store :=
  ⟨.empty, .empty, .empty, .empty, .empty, .empty, .empty, .empty, .empty⟩

/-- `UPDATE full_work SET … WHERE key=?`. -/
def Store.setWork (s : Store) (key : String) (f : Work → Work)
    (hf : ∀ w, (f w).key = w.key := by intro _; rfl) : Store :=
  { s with works := s.works.modify key f hf }

/-- `INSERT INTO full_plan_reconcile SELECT plan_id,1 FROM full_work WHERE key=? ON CONFLICT …`. -/
def Store.markDirty (s : Store) (key : String) : Store :=
  match s.works.find? key with
  | none => s
  | some w =>
    { s with reconcile := s.reconcile.upsert ⟨w.planId, true⟩ fun r => { r with dirty := true } }

/-! ## Plans -/

structure Part where
  workItemId : String
  memberKeys : List String

/-- A plan of the source; `body` are its canonical bytes. -/
structure Plan where
  planId : String
  datasetKey : String
  tradeDate : String
  parts : List Part
  body : Bytes

/-- `[(part, key) for part in plan["parts"] for key in part["member_keys"]]`. -/
def Plan.entries (plan : Plan) : List (Part × String) :=
  plan.parts.flatMap fun part => part.memberKeys.map fun member => (part, member)

/-- `part["work_item_id"] + ":" + member_key`. -/
def workKey (entry : Part × String) : String := entry.1.workItemId ++ ":" ++ entry.2

def Store.insertMember (s : Store) (plan : Plan) (provider : String) (entry : Part × String) : Store :=
  let w : Work := ⟨workKey entry, provider, plan.planId, entry.2, .pending, 0, 0, none, none, none,
    none, 0⟩
  { s with works := s.works.insertNew w }

/-- `record_plan`. -/
def Store.recordPlan (s : Store) (plan : Plan) (provider : String) : Store :=
  let saved : SavedPlan :=
    ⟨plan.planId, provider, plan.datasetKey, plan.tradeDate, plan.body, false, false⟩
  let clean : Reconcile := ⟨plan.planId, false⟩
  let s := { s with plans := s.plans.insertNew saved, reconcile := s.reconcile.insertNew clean }
  plan.entries.foldl (fun s entry => s.insertMember plan provider entry) s

/-- `summary` of an evaluated plan. -/
structure Summary where
  expected : Nat
  data : Nat
  noData : Nat
  missing : Nat
  blocked : Nat
  isLate : Bool
deriving DecidableEq, Repr

def Summary.complete (r : Summary) : Bool :=
  r.expected == r.data + r.noData && r.missing == 0 && r.blocked == 0

/-- `evaluate`. -/
def Store.evaluate (s : Store) (planId : String) (summary : Summary) : Store :=
  let s := { s with
    plans := s.plans.modify planId fun p =>
      { p with complete := summary.complete, late := summary.isLate }
    reconcile := s.reconcile.upsert ⟨planId, false⟩ fun r => { r with dirty := false } }
  if summary.complete then
    { s with works := s.works.update (fun w => w.planId == planId) fun w =>
      { w with status := .complete, leaseUntil := 0 } }
  else s

/-! ## A member -/

/-- The row is neither terminal nor leased nor put off. -/
def Work.eligible (w : Work) (now : Instant) : Bool :=
  !w.status.terminal && decide (w.leaseUntil ≤ now) && decide (w.nextAt ≤ now)

/-- `eligible`. -/
def Store.eligible (s : Store) (key : String) (now : Instant) : Bool :=
  (s.works.find? key).any fun w => w.eligible now

/-- `claim`. -/
def Store.claim (s : Store) (key : String) (now lease : Instant) (nextCursor : Option Nat) :
    Store × Bool :=
  match s.works.find? key with
  | none => (s, false)
  | some w =>
    if !w.eligible now then (s, false)
    else
      let s' := s.setWork key fun w =>
        { w with leaseUntil := now + lease, attempts := w.attempts + 1 }
      match nextCursor with
      | none => (s', true)
      | some cursor =>
        ({ s' with schedules := s'.schedules.upsert ⟨w.planId, cursor⟩ fun r => { r with cursor } },
          true)

variable (checksum : Bytes → String)

/-- `prepared`. -/
def Store.prepared (s : Store) (key : String) : Except Err (Option Bytes) := do
  match s.works.find? key with
  | none => return none
  | some w =>
    match w.body with
    | none => return none
    | some body =>
      ensure (w.bodySha256 == some (checksum body)) ⟨"immutable prepared body checksum mismatch"⟩
      return some body

/-- `prepare`. -/
def Store.prepare (s : Store) (key : String) (body : Bytes) : Except Err Store := do
  ensure ((s.works.find? key).any fun w => w.body.all (· == body)) ⟨"prepared body cannot be changed"⟩
  return s.setWork key fun w =>
    { w with body := some body, bodySha256 := some (checksum body), status := .prepared }

/-- `receipt`. -/
def Store.receipt (s : Store) (key : String) : Option String :=
  (s.works.find? key).bind (·.receipt)

/-- `sequence_receipt`. -/
def Store.sequenceReceipt (s : Store) (key idempotencyKey : String) : Option String :=
  (s.receipts.find? (key, idempotencyKey)).map (·.runId)

/-- `save_sequence_receipt`. -/
def Store.saveSequenceReceipt (s : Store) (key idempotencyKey runId : String) : Except Err Store := do
  let row : SequenceReceipt := ⟨key, idempotencyKey, runId⟩
  let s := { s with receipts := s.receipts.insertNew row }
  ensure (s.sequenceReceipt key idempotencyKey == some runId) ⟨"sequence receipt identity changed"⟩
  return s

/-- `CASE WHEN body IS NULL THEN 'pending' ELSE 'prepared' END`. -/
def Work.waiting (w : Work) : WorkStatus := if w.body.isNone then .pending else .prepared

/-- `defer_wait`. -/
def Store.deferWait (s : Store) (key : String) (now : Instant) (reason : String)
    (delaySeconds : Nat) : Except Err Store := do
  ensure (decide (1 ≤ delaySeconds)) ⟨"wait delay must be positive"⟩
  return s.setWork key fun w =>
    { w with
      status := w.waiting, reason := some reason, leaseUntil := 0,
      nextAt := now + delaySeconds * second, attempts := w.attempts - 1 }

/-- The first transaction of `defer_provider_outage`, with the start of the outage. -/
def Store.startOutage (s : Store) (key : String) (now : Instant) : Store × Option Instant :=
  match s.works.find? key with
  | none => (s, none)
  | some w =>
    let outage : Outage := ⟨w.planId, now⟩
    let s := { s with outages := s.outages.insertNew outage }
    (s, (s.outages.find? w.planId).map (·.since))

/-- `clear_provider_outage`. -/
def Store.clearProviderOutage (s : Store) (planId : String) : Store :=
  { s with outages := s.outages.delete fun r => r.planId == planId }

/-- `record_no_data_trip`. -/
def Store.recordNoDataTrip (s : Store) (planId : String) (until_ : Instant) : Store :=
  { s with
    trips := s.trips.upsert ⟨planId, 1⟩ fun r => { r with trips := r.trips + 1 }
    works := s.works.update (fun w => w.planId == planId && w.status == .pending) fun w =>
      { w with nextAt := max w.nextAt until_ } }

/-- `clear_no_data_trips`. -/
def Store.clearNoDataTrips (s : Store) (planId : String) : Store :=
  { s with trips := s.trips.delete fun r => r.planId == planId }

/-- `counts_toward_no_data_breaker`; a missing row cannot be read. -/
def Store.countsTowardNoDataBreaker (s : Store) (key : String) : Except Err Bool := do
  let w ← need (s.works.find? key) ⟨"'NoneType' object is not subscriptable"⟩
  let served := s.works.rows.filter fun v =>
    v.planId == w.planId && (v.status == .complete || v.status == .prepared)
  return decide (w.attempts ≤ 1) || decide (served.length < FULL_WORK_NO_DATA_BREAKER)

/-! ## Outcomes that are not reported yet -/

/-- `source_error_pending`. -/
def Work.unreported (w : Work) : Bool := w.reason == some "source_error_pending"

/-- `pending_source_error_keys`. -/
def Store.pendingSourceErrorKeys (s : Store) (planId : String) : List String :=
  (s.works.rows.filter fun w => w.planId == planId && w.unreported).map Work.key

/-- `stage_source_error`. -/
def Store.stageSourceError (s : Store) (key : String) : Store :=
  (s.setWork key fun w =>
    { w with
      status := w.waiting, reason := some "source_error_pending", leaseUntil := 0,
      nextAt := 0 }).markDirty key

/-- `… WHERE body IS NULL`. -/
def Work.stage (w : Work) : Work :=
  if w.body.isNone then
    { w with
      attempts := w.attempts - 1, status := .pending, reason := some "source_error_pending",
      leaseUntil := 0 }
  else w

theorem Work.stage_key (w : Work) : w.stage.key = w.key := by
  unfold Work.stage
  split <;> rfl

/-- `stage_empty_response`. -/
def Store.stageEmptyResponse (s : Store) (key : String) (now delay : Instant) (exhausted : Bool)
    (reason : String) : Except Err Store := do
  ensure (reason == "empty_response" || reason == "unknown_dispatch")
    ⟨"observation reason is invalid"⟩
  let outcome : EmptyOutcome := ⟨key, exhausted, now + delay, reason⟩
  let s := { s with emptyOutcomes := s.emptyOutcomes.upsert outcome fun r =>
    { r with exhausted, nextAt := now + delay, reason } }
  return s.setWork key Work.stage Work.stage_key

/-- `observation_outcome_reason`. -/
def Store.observationOutcomeReason (s : Store) (key : String) : Option String :=
  (s.emptyOutcomes.find? key).map (·.reason)

/-- `acknowledge_empty`. -/
def Store.acknowledgeEmpty (s : Store) (key : String) : Store :=
  match s.emptyOutcomes.find? key with
  | none => s
  | some row =>
    let s := s.setWork key fun w =>
      { w with
        status := if row.exhausted then .manual else .pending, reason := some row.reason,
        nextAt := row.nextAt, leaseUntil := 0 }
    ({ s with emptyOutcomes := s.emptyOutcomes.delete fun r => r.workKey == key }).markDirty key

/-! ## Repairs and the end -/

/-- `member_complete`. -/
def Store.memberComplete (s : Store) (key : String) : Bool :=
  (s.works.find? key).any (·.status == .complete)

/-- `member_repair_installed`. -/
def Store.memberRepairInstalled (s : Store) (repairId : String) : Bool :=
  (s.repairs.find? repairId).isSome

/-- `apply_member_repair`. -/
def Store.applyMemberRepair (s : Store) (key repairId : String) : Except Err (Store × Bool) := do
  if s.memberRepairInstalled repairId then return (s, true)
  let w ← need (s.works.find? key) ⟨"repair requires an unresolved unprepared member"⟩
  if w.body.isSome || w.receipt.isSome || w.status == .complete then return (s, false)
  ensure (!w.unreported) ⟨"repair requires pending outcome reconciliation"⟩
  let row : MemberRepair := ⟨repairId, key, w.attempts⟩
  let s := { s with repairs := s.repairs.insertNew row }
  return (s.setWork key fun w =>
    { w with status := .pending, reason := some "repair_approved", leaseUntil := 0 }, true)

/-- `retry_delay`, in seconds: a row without data waits longer each time. -/
def Store.retryDelay (s : Store) (key : String) (reason : Option String) : Nat :=
  if reason == some "no_data" then
    let spent := ((s.works.find? key).map (·.attempts)).getD 1
    noDataRetryDelays.getD (min (max spent 1) noDataRetryDelays.length - 1) 0
  else 60

/-- A waiting row with a reason, other than `normalizing`, and no attempts left. -/
def Work.exhausted (w : Work) : Bool :=
  decide (FULL_WORK_MAX_ATTEMPTS ≤ w.attempts) && !w.status.terminal &&
  w.reason.any (· != "normalizing")

def Work.exhaust (w : Work) : Work :=
  if w.exhausted then
    { w with
      status := .manual,
      reason := some (if w.reason == some "no_data" then "no_data_exhausted" else "retry_exhausted") }
  else w

theorem Work.exhaust_key (w : Work) : w.exhaust.key = w.key := by
  unfold Work.exhaust
  split <;> rfl

/-- `normalizing` gives its attempt back. -/
def Work.refund (w : Work) : Work := { w with attempts := w.attempts - 1 }

def Work.settle (w : Work) (status : WorkStatus) (reason receipt : Option String) (nextAt : Instant) :
    Work :=
  { w with status, reason, receipt := receipt <|> w.receipt, leaseUntil := 0, nextAt }

/-- `finish`. -/
def Store.finish (s : Store) (key : String) (status : WorkStatus) (reason receipt : Option String)
    (now : Instant) : Store :=
  let s := if reason == some "normalizing" then s.setWork key Work.refund else s
  let nextAt := if status.terminal then 0 else now + s.retryDelay key reason * second
  let s := s.setWork key fun w => w.settle status reason receipt nextAt
  (s.setWork key Work.exhaust Work.exhaust_key).markDirty key

/-! ## What is left to do -/

/-- `pending_plans`, but for the order. -/
def Store.pendingPlans (s : Store) (provider : String) : List SavedPlan :=
  s.plans.rows.filter fun p => p.provider == provider && !p.complete

/-- The prepared rows that wait. -/
def Store.preparedDrain (s : Store) (provider : String) (now : Instant) : List Work :=
  s.works.rows.filter fun w =>
    w.provider == provider && w.body.isSome && !w.status.terminal && decide (w.leaseUntil ≤ now) &&
    decide (w.nextAt ≤ now)

/-- The plans whose rows were not evaluated. -/
def Store.dirtyPlans (s : Store) (provider : String) : List String :=
  (s.plans.rows.filter fun p => p.provider == provider && !p.complete &&
    (s.reconcile.find? p.planId).any (·.dirty)).map SavedPlan.planId

/-- `drain_plans`: the plans with the keys to drain, but for the order. -/
def Store.drainPlans (s : Store) (provider : String) (now : Instant) : List (SavedPlan × List String) :=
  let drain := s.preparedDrain provider now
  let dirty := s.dirtyPlans provider
  (s.plans.rows.filter fun p => p.provider == provider && !p.complete &&
    (drain.any (·.planId == p.planId) || dirty.contains p.planId)).map fun p =>
      (p, (drain.filter fun w => w.planId == p.planId).map Work.key)

end FinDB.Members
