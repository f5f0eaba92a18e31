import FinDB.Lib.Crash
import FinDB.Members.Store

/-! # A round of a plan

A round records its plan, installs the repairs that were granted, delivers the members one after
another and evaluates the plan. The providers, the owner, the source and the delivery answer
anything; every transaction may be the last one of the process. One round runs at a time. -/
namespace FinDB.Members
open FinDB.Lib

/-! ## What a round is given -/

/-- What the store computes with: the checksum of a body, the requests it holds, and the identity
of a request. The source freezes the plans, and a work item belongs to one of them. -/
structure World where
  checksum : Bytes → String
  requests : Bytes → List Bytes
  identity : Bytes → String
  plans : String → Plan
  planId : ∀ id, (plans id).planId = id
  own : ∀ id id' e e', e ∈ (plans id).entries → e' ∈ (plans id').entries → workKey e = workKey e' →
    id = id'

/-- The exceptions that the loop tells apart. -/
inductive Failure where
  /-- `ProviderWorkRecoveryBlockedError`, which no clause of the loop takes. -/
  | recoveryBlocked
  | calendarRepair
  | sourceUnavailable
  /-- `ProviderWorkAcquisitionStopped`; whether it is a `DailyWindowClosedError`. -/
  | stopped (windowClosed : Bool)
  /-- `ShioajiEmptyResponseError`; of a `ShioajiObservationWaitError` with its fields. -/
  | empty (wait : Option (Bool × Nat × Bool))
  | targetNotReady
  | quotaBlocked (quotaWait dispatched : Bool)
  | twelveData (rateLimited noData : Bool)
  | basisMismatch
  | sourceResponse (code : Option String) (status : Nat)
  /-- `FullMarketProtocolError` of a fence. -/
  | fence
  | sdkQuotaWait
  /-- The report of the exchange is not there, with `retry_after` rounded up. -/
  | reportUnavailable (retryAfter : Nat)
  | other

/-- What the normalization of a delivery has come to. -/
inductive Delivered where
  | waiting
  /-- Not completed or with failed records; else the counts differ. -/
  | failed (rejected : Bool)
  | completed

/-- A repair that the source granted. -/
structure Grant where
  memberKey : String
  repairId : String
  acknowledged : Bool

/-- The answers of one round, by the number of the call. -/
structure Answers where
  now : Nat → Instant
  /-- The time of the batch is used up. -/
  elapsed : Nat → Bool
  /-- The window of the runtime is open. -/
  windowOpen : Nat → Bool
  /-- The owner has observed a dispatch since the claim. -/
  dispatched : Nat → Bool
  observed : Nat → Bool
  restore : Nat → Except Failure (Option Bytes)
  allowed : Nat → Except Failure Bool
  calendar : Nat → Except Failure Bool
  authorize : Nat → Except Failure Unit
  /-- `_acquire`, with the requests as one body; none for a proven day without a trade. -/
  acquire : Nat → Except Failure (Option Bytes)
  reserve : Nat → Except Failure Unit
  predates : Nat → Except Failure Bool
  prepare : Nat → Except Failure Unit
  deliver : Nat → Except Failure String
  runStatus : Nat → Except Failure Delivered
  outcome : Nat → Except Failure Unit
  observation : Nat → Except Failure (Nat × Nat)
  publicationDelay : Nat → Except Failure Nat
  repairs : Nat → Except Failure (List Grant)
  resolved : Nat → Except Failure (List String)
  acknowledge : Nat → Except Failure Unit
  evaluate : Nat → Except Failure Summary
  /-- How often the source says that the round still drains. -/
  draining : Nat → Nat

/-- The runtime and the arguments of a round; `mapped` is of the repaired release. -/
structure Round where
  provider : Provider
  planId : String
  maxMembers : Option Nat
  mapped : String → Bool
  drainOnly : Bool
  drainKeys : Option (List String)
  daily : Bool

/-! ## What a round leaves behind -/

inductive Event where
  | acquire (planId key : String)
  | deliver (key : String) (request : Bytes)
  | outcome (key reason : String)
deriving DecidableEq, Repr

/-- The store, with the calls that left the process, oldest first. -/
structure Disk where
  store : Store
  log : List Event

structure Memory where
  answers : Answers
  calls : Nat
  processed : Nat
  reason : String
  noDataStreak : Nat
  calendarChecked : Bool

inductive Exc where
  | state (e : Err)
  | failure (f : Failure)
  | publicationPending

abbrev Run := Process Exc Disk Memory

/-- The next answer. -/
def ask {α : Type} (f : Answers → Nat → α) : Run α :=
  think fun m => (f m.answers m.calls, { m with calls := m.calls + 1 })

def askOrRaise {α : Type} (f : Answers → Nat → Except Failure α) : Run α := do
  lift Exc.failure (← ask f)

def remember (f : Memory → Memory) : Run Unit := think fun m => ((), f m)

def inMemory {α : Type} (f : Memory → α) : Run α := think fun m => (f m, m)

/-- A call leaves the process. -/
def record (e : Event) : Run Unit := write fun d => { d with log := d.log ++ [e] }

/-- A transaction that does not raise. -/
def commit (f : Store → Store) : Run Unit := write fun d => { d with store := f d.store }

/-- A transaction. -/
def transaction {α : Type} (f : Store → Except Err (Store × α)) : Run α :=
  transact Exc.state fun d => (fun r => ({ d with store := r.1 }, r.2)) <$> f d.store

def transaction_ (f : Store → Except Err Store) : Run Unit := transaction fun s => (·, ()) <$> f s

section
variable (W : World) (r : Round)

def retrySeconds : Nat := 900

def noDataHoldSeconds : Nat := 1800

def outageRetrySeconds : Nat := 12 * 3600

def leaseSeconds : Nat := 600

/-- `self.state.prepared`. -/
def preparedOf (key : String) : Run (Option Bytes) := do
  let d ← readDisk
  lift Exc.state (d.store.prepared W.checksum key)

/-- `self.source.outcome`. -/
def sourceOutcome (key reason : String) : Run Unit := do
  record (.outcome key reason)
  askOrRaise Answers.outcome

/-- `defer_wait` at the time of the clock. -/
def deferWait (key reason : String) (delaySeconds : Nat) : Run Unit := do
  let now ← ask Answers.now
  transaction_ fun s => s.deferWait key now reason delaySeconds

/-- `finish` with `status="prepared" if self.state.prepared(key) else "pending"`. -/
def finishWaiting (key reason : String) : Run Unit := do
  let body ← preparedOf W key
  let now ← ask Answers.now
  commit fun s => s.finish key (if body.isSome then .prepared else .pending) (some reason) none now

def finishManual (key reason : String) : Run Unit :=
  commit fun s => s.finish key .manual (some reason) none 0

/-- `_report_source_error`. -/
def reportSourceError (key : String) : Run Unit := do
  let d ← readDisk
  let observation := d.store.observationOutcomeReason key
  sourceOutcome key (if observation == some "empty_response" then "empty_response" else "source_error")
  if observation.isSome then commit fun s => s.acknowledgeEmpty key
  else finishWaiting W key "source_error"

/-- `_price_basis_manual`. -/
def priceBasisManual (key : String) : Run Unit := do
  sourceOutcome key "source_error"
  finishManual key "price_basis_manual_review"

/-! ## The repairs -/

/-- `keys[member_key]`. -/
def Plan.keyOf (plan : Plan) (member : String) : Option String :=
  (plan.entries.reverse.find? fun e => e.2 == member).map workKey

/-- The reports of the repaired members that were not sent. -/
def reportOutstanding (pending : List String) : List (Grant × String) → Run Unit
  | [] => return ()
  | (_, key) :: rest => do
    if pending.contains key then
      reportSourceError W key
      reportOutstanding pending rest
    else reportOutstanding pending rest

/-- One outstanding repair; whether it was installed. -/
def installRepair (resolved : List String) (grant : Grant) (key : String) : Run Unit := do
  if resolved.contains grant.memberKey then
    let d ← readDisk
    if d.store.memberComplete key then return ()
    else commit fun s => s.finish key .complete none none 0
  else
    match ← preparedOf W key with
    | some _ => return ()
    | none =>
      match ← askOrRaise Answers.restore with
      | some _ => return ()
      | none =>
        let _ ← transaction fun s => s.applyMemberRepair key grant.repairId
        return ()

def installAll (resolved : List String) : List (Grant × String) → Run Unit
  | [] => return ()
  | (grant, key) :: rest => do
    installRepair W resolved grant key
    installAll resolved rest

/-- The repairs that are neither acknowledged nor settled. -/
def Store.outstanding (s : Store) (checksum : Bytes → String) (g : Grant) (key : String) :
    Except Err Bool := do
  if g.acknowledged && s.memberRepairInstalled g.repairId then return false
  if s.memberComplete key then return false
  return (← s.prepared checksum key).isNone

/-- `_install_shioaji_repairs`. -/
def installShioajiRepairs : Run Unit := do
  let grants ← askOrRaise Answers.repairs
  let keyed ← lift Exc.failure (grants.mapM fun g =>
    match (W.plans r.planId).keyOf g.memberKey with
    | some key => .ok (g, key)
    | none => .error .recoveryBlocked)
  let d ← readDisk
  let outstanding ← lift Exc.state (keyed.filterM fun g => d.store.outstanding W.checksum g.1 g.2)
  if outstanding.isEmpty then return ()
  let pending := d.store.pendingSourceErrorKeys r.planId
  reportOutstanding W pending outstanding
  let resolved ← askOrRaise Answers.resolved
  installAll W resolved outstanding
  askOrRaise Answers.acknowledge

/-! ## A delivery -/

inductive Settled where
  | done | normalizing | failed

/-- The run of a request: one that is saved, or that of a delivery. -/
def deliverOnce (key : String) (single : Bool) (request : Bytes) : Run String := do
  let d ← readDisk
  match d.store.sequenceReceipt key (W.identity request) with
  | some run => return run
  | none =>
    -- a checkpoint of one request kept its receipt with the member
    match if single then d.store.receipt key else none with
    | some run =>
      transaction_ fun s => s.saveSequenceReceipt key (W.identity request) run
      return run
    | none =>
      record (.deliver key request)
      let run ← askOrRaise Answers.deliver
      transaction_ fun s => s.saveSequenceReceipt key (W.identity request) run
      commit fun s => s.finish key .prepared none (some run) 0
      return run

/-- The requests of a body, one after another. -/
def deliverRequests (key : String) (single : Bool) : List Bytes → Run Settled
  | [] => return .done
  | request :: rest => do
    askOrRaise Answers.prepare
    let _ ← deliverOnce W key single request
    match ← askOrRaise Answers.runStatus with
    | .waiting => return .normalizing
    | .failed rejected =>
      finishManual key "normalization_failed"
      if rejected then sourceOutcome key "source_error"
      return .failed
    | .completed => deliverRequests key single rest

/-- A prepared body. -/
def deliverBody (key : String) (body : Bytes) : Run Unit := do
  let requests := W.requests body
  match ← deliverRequests W key (requests.length == 1) requests with
  | .done => commit fun s => s.finish key .complete none none 0
  | .normalizing =>
    let now ← ask Answers.now
    commit fun s => s.finish key .prepared (some "normalizing") none now
  | .failed => return ()

/-! ## A member -/

def reserveAll : List Bytes → Run Unit
  | [] => return ()
  | _ :: rest => do
    askOrRaise Answers.reserve
    reserveAll rest

/-- The provider is asked, and its answer prepared and delivered. -/
def acquireMember (key : String) : Run Unit := do
  askOrRaise Answers.authorize
  record (.acquire r.planId key)
  let requests ← askOrRaise Answers.acquire
  remember fun m => { m with noDataStreak := 0 }
  commit fun s => s.clearNoDataTrips r.planId
  commit fun s => if r.provider = .taifex then s.clearProviderOutage r.planId else s
  match requests with
  | none => commit fun s => s.finish key .complete (some "source_proven_no_trade") none 0
  | some body =>
    reserveAll (W.requests body)
    transaction_ fun s => s.prepare W.checksum key body
    deliverBody W key body

/-- FinLab asks for the calendar again once a response was observed. -/
def calendarAgain (key : String) : Run Unit := do
  if r.provider = .finlab then
    if ← ask Answers.observed then
      if ← askOrRaise Answers.calendar then
        finishManual key "calendar_repair_required"
        throw (.failure .calendarRepair)

/-- The `try` of a claimed member. -/
def tryMember (member key : String) : Run Unit := do
  if !r.mapped member then
    sourceOutcome key "mapping_gap"
    finishManual key "mapping_gap"
  else
    match ← preparedOf W key with
    | none =>
      calendarAgain r key
      acquireMember W r key
    | some body =>
      if ← askOrRaise Answers.predates then priceBasisManual key
      else deliverBody W key body

inductive Flow where
  | goOn
  | stop (more : Bool)

def setReason (reason : String) : Run Unit :=
  remember fun m => if r.maxMembers.isSome then { m with reason } else m

/-- The closing of `except Exception`. -/
def memberBroken (key : String) : Run Flow := do
  commit fun s => s.stageSourceError key
  reportSourceError W key
  return .stop false

/-- `except ShioajiEmptyResponseError`. -/
def memberEmpty (key : String) (wait : Option (Bool × Nat × Bool)) : Run Flow := do
  let (count, maximum) ← askOrRaise Answers.observation
  let exhausted := match wait with
    | some (exhausted, _, _) => exhausted
    | none => decide (maximum ≤ count)
  let delay := match wait with
    | some (_, delay + 1, _) => delay + 1
    | _ => retrySeconds
  let reason := match wait with
    | some (_, _, false) => "unknown_dispatch"
    | _ => "empty_response"
  let now ← ask Answers.now
  transaction_ fun s => s.stageEmptyResponse key now (delay * second) exhausted reason
  if ← askOrRaise Answers.calendar then
    reportSourceError W key
    finishManual key "calendar_repair_required"
    throw (.failure .calendarRepair)
  else
    reportSourceError W key
    setReason r reason
    return .stop false

/-- `except FinLabTargetNotReadyError`. -/
def memberNotReady (key : String) : Run Flow := do
  let delay ← askOrRaise Answers.publicationDelay
  if ← askOrRaise Answers.calendar then
    finishManual key "calendar_repair_required"
    throw (.failure .calendarRepair)
  else if 0 < delay then
    deferWait key "target_not_ready" delay
    throw .publicationPending
  else
    finishManual key "target_not_ready"
    return .stop false

/-- A long run of members without data holds the plan. -/
def holdPlan : Run Flow := do
  if (← inMemory Memory.noDataStreak) < FULL_WORK_NO_DATA_BREAKER then return .goOn
  let now ← ask Answers.now
  commit fun s => s.recordNoDataTrip r.planId (now + noDataHoldSeconds * second)
  return .stop false

/-- The end of `except (QuotaBlockedError, TwelveDataResponseError)`. -/
def memberLimited (key reason : String) (noData : Bool) : Run Flow := do
  sourceOutcome key reason
  finishWaiting W key (if noData then "no_data" else reason)
  if noData then
    let d ← readDisk
    if ← lift Exc.state (d.store.countsTowardNoDataBreaker key) then
      remember fun m => { m with noDataStreak := m.noDataStreak + 1 }
    holdPlan r
  else return .stop false

/-- `except (QuotaBlockedError, TwelveDataResponseError)`. -/
def memberQuota (key : String) (limited quota noData : Bool) : Run Flow := do
  let dispatched ← ask Answers.dispatched
  if quota && limited && (r.maxMembers.isSome || !dispatched) then
    deferWait key "rate_limited" 60
    setReason r "quota_wait"
    return .stop false
  else memberLimited W r key (if limited then "rate_limited" else "source_error") noData

/-- The outage of a report that every member needs. -/
def memberOutage (key : String) (retryAfter : Nat) : Run Flow := do
  let delay := max 60 retryAfter
  let now ← ask Answers.now
  let since ← transaction fun s => .ok (s.startOutage key now)
  if since.any fun since => decide (now < since + outageRetrySeconds * second) then
    transaction_ fun s => s.deferWait key now "provider_unavailable" delay
    return .stop false
  else
    commit fun s => s.stageSourceError key
    sourceOutcome key "source_error"
    finishManual key "retry_exhausted"
    return .stop false

/-- `except ProviderWorkAcquisitionStopped`. -/
def memberStopped (key : String) (windowClosed : Bool) : Run Flow := do
  let open_ ← ask Answers.windowOpen
  let closed := windowClosed || !open_
  setReason r (if closed then "acquisition_window_closed" else "suspended")
  if r.maxMembers.isSome && closed then
    deferWait key "acquisition_window_closed" 60
    return .stop false
  else if ← ask Answers.dispatched then
    finishWaiting W key "suspended"
    return .stop false
  else
    deferWait key "suspended" 60
    return .stop false

/-- `except SourceAPIResponseError`. -/
def memberRejected (key : String) (code : Option String) (status : Nat) : Run Flow :=
  if code == some "PROVIDER_WORK_FENCE" then throw (.failure .recoveryBlocked)
  else do
    let body ← preparedOf W key
    let dispatched ← ask Answers.dispatched
    if status == 429 && (body.isSome || !dispatched) then
      deferWait key "rate_limited" 60
      return .stop false
    else
      let now ← ask Answers.now
      commit fun s => s.finish key
        (if decide (status < 500) && status != 429 then .manual
          else if body.isSome then .prepared else .pending) (some "source_rejected") none now
      return .stop false

/-- `except CalendarRepairRequiredError`. -/
def memberCalendar (key : String) : Run Flow :=
  if r.provider = .shioaji then do
    deferWait key "calendar_repair_required" 60
    finishManual key "calendar_repair_required"
    throw (.failure .calendarRepair)
  else throw (.failure .calendarRepair)

/-- Nothing was sent for a row without a body. -/
def deferUnavailable (key : String) : Run Unit := do
  if !(← ask Answers.dispatched) then
    if (← preparedOf W key).isNone then deferWait key "source_unavailable" 60

/-- `except SourceUnavailableError`. -/
def memberUnavailable (key : String) : Run Flow := do
  deferUnavailable W key
  throw (.failure .sourceUnavailable)

/-- `except ShioajiSDKError` that waits for the quota. -/
def memberSdkWait (key : String) : Run Flow :=
  if r.maxMembers.isSome then do
    deferWait key "rate_limited" 60
    setReason r "quota_wait"
    return .stop false
  else memberBroken W key

/-- The report of the exchange is needed by every member. -/
def memberReport (key : String) (retryAfter : Nat) : Run Flow :=
  if r.provider = .taifex then memberOutage key retryAfter else memberBroken W key

/-- The clauses of the `try`. -/
def memberFailed (key : String) : Exc → Run Flow
  | .failure .recoveryBlocked => throw (.failure .recoveryBlocked)
  | .failure .calendarRepair => memberCalendar r key
  | .failure .sourceUnavailable => memberUnavailable W key
  | .failure (.stopped windowClosed) => memberStopped W r key windowClosed
  | .failure (.empty wait) => memberEmpty W r key wait
  | .failure .targetNotReady => memberNotReady key
  | .failure (.quotaBlocked quotaWait dispatched) =>
    memberQuota W r key (quotaWait && !dispatched) true false
  | .failure (.twelveData rateLimited noData) => memberQuota W r key rateLimited false noData
  | .failure .basisMismatch => do
    priceBasisManual key
    return .goOn
  | .failure (.sourceResponse code status) => memberRejected W key code status
  | .failure .fence => throw (.failure .recoveryBlocked)
  | .failure .sdkQuotaWait => memberSdkWait W r key
  | .failure (.reportUnavailable retryAfter) => memberReport W r key retryAfter
  | .failure .other | .state _ | .publicationPending => memberBroken W key

/-! ## The members of a plan -/

/-- The batch is full or its time is used up. -/
def batchOver : Run Bool := do
  match r.maxMembers with
  | none => return false
  | some most =>
    let full := decide (most ≤ (← inMemory Memory.processed)) || (← ask Answers.elapsed)
    if full then setReason r "batch_yield"
    return full

/-- A body that the owner kept is prepared again. -/
def restoreBody (key : String) : Run Unit := do
  match ← preparedOf W key with
  | some _ => return ()
  | none =>
    match ← askOrRaise Answers.restore with
    | none => return ()
    | some body => transaction_ fun s => s.prepare W.checksum key body

/-- Provider I/O may be needed and is not allowed. -/
def heldBack (key : String) : Run Bool := do
  match ← preparedOf W key with
  | some _ => return false
  | none => if r.drainOnly then return true else return !(← askOrRaise Answers.allowed)

/-- The calendar is asked once a round before the first claim that needs provider I/O. -/
def checkCalendar (member key : String) : Run Unit := do
  if !(← inMemory Memory.calendarChecked) then
    if r.mapped member then
      if (← preparedOf W key).isNone then
        if r.daily then
          let now ← ask Answers.now
          let d ← readDisk
          if d.store.eligible key now then
            remember fun m => { m with calendarChecked := true }
            if ← askOrRaise Answers.calendar then throw (.failure .calendarRepair)

/-- The row is claimed and its member handled. -/
def claimMember (index count : Nat) (member key : String) : Run Flow := do
  let now ← ask Answers.now
  let claimed ← transaction fun s => .ok (s.claim key now (leaseSeconds * second)
    (if r.maxMembers.isSome then some ((index + 1) % count) else none))
  if !claimed then return .goOn
  remember fun m => if r.maxMembers.isSome then { m with processed := m.processed + 1 } else m
  tryCatch (do
    tryMember W r member key
    return .goOn) (memberFailed W r key)

/-- The body of the loop. -/
def processMember (count index : Nat) (member key : String) : Run Flow := do
  if r.drainKeys.any fun keys => !keys.contains key then return .goOn
  if ← batchOver r then return .stop true
  let now ← ask Answers.now
  let d ← readDisk
  if !d.store.eligible key now then return .goOn
  restoreBody W key
  if ← heldBack W r key then return .goOn
  if ← batchOver r then return .stop true
  checkCalendar W r member key
  claimMember W r index count member key

def processMembers (count : Nat) : List (Nat × Part × String) → Run Bool
  | [] => return true
  | (index, entry) :: rest => do
    match ← processMember W r count index entry.2 (workKey entry) with
    | .goOn => processMembers count rest
    | .stop more => return more

/-- The entries from the cursor on, with their places. -/
def ordered (offset : Nat) (entries : List (Part × String)) : List (Nat × Part × String) :=
  let places := entries.mapIdx fun i e => (i, e)
  places.drop offset ++ places.take offset

/-- `_deliver_members`. -/
def deliverMembers : Run Bool := do
  let entries := (W.plans r.planId).entries
  let d ← readDisk
  let pending := d.store.pendingSourceErrorKeys r.planId
  match entries.find? fun e => pending.contains (workKey e) with
  | some entry =>
    reportSourceError W (workKey entry)
    return false
  | none =>
    let cursor := ((d.store.schedules.find? r.planId).map (·.cursor)).getD 0
    let offset := if r.maxMembers.isSome then cursor % max 1 entries.length else 0
    processMembers W r entries.length (ordered offset entries)

/-! ## The round -/

/-- The evaluation of a settlement, once more for each time the source still drains. -/
def evaluateRound : Nat → Run Unit
  | 0 => return ()
  | n + 1 => do
    let summary ← askOrRaise Answers.evaluate
    commit fun s => s.evaluate r.planId summary
    evaluateRound n

/-- A claimed day of `_queued_cycle`. -/
def Round.run (provider : String) : Run Unit := do
  commit fun s => s.recordPlan (W.plans r.planId) provider
  if r.provider = .shioaji then installShioajiRepairs W r
  let _ ← deliverMembers W r
  let draining ← ask Answers.draining
  evaluateRound r (draining + 1)

end
end FinDB.Members
