import FinDB.Lib.Crash
import FinDB.Staging.Audit

/-! # The one-shot coordinator

A run goes through the sequences of the manifest: it acquires a snapshot, builds the request,
and with `deliver` uploads the raw object, keeps the prepared request and delivers it. Every
write to the database may be the last one of the process, and what the provider, the raw
store and the source do is any answer they can give. One coordinator runs at a time. -/
namespace FinDB.Staging
open FinDB.Lib
open FinDB.Scheduler (Datetime)

/-! ## What a run is given -/

/-- What the process reads outside of the database. -/
structure Clock where
  /-- The date and `%H:%M` in Taipei. -/
  taipei : Datetime → CivilDate × String

/-- `Result`, without the symbol that `run` fills in. -/
structure Result where
  code : String
  stage : String
  count : Nat
  retryable : Bool
  requestId : Option String
  runId : Option String
  reason : Option String
deriving DecidableEq, Repr

/-- `Result.__post_init__`. -/
def Result.make (code stage : String) (count : Nat) (retryable : Bool)
    (requestId runId reason : Option String) : Result :=
  ⟨code, stage, count, retryable, requestId, runId,
    if code == "KBARS_PAYLOAD" && nullOr payloadReasons.contains reason then reason else none⟩

def Result.of (code stage : String) : Result := Result.make code stage 0 false none none none

def Result.retry (code stage : String) (retryable : Bool) : Result :=
  Result.make code stage 0 retryable none none none

/-- What `fetch_kbars` and the encoding of its snapshot end in. -/
inductive Fetched where
  | snapshot (bytes : Bytes)
  /-- `ShioajiPayloadError`, `TypeError`, `ValueError` or `OverflowError`. -/
  | payload
  /-- `ProviderWorkSourceUnavailableError`; no dispatch was observed by the owner. -/
  | sourceUnavailable (undispatched : Bool)
  | quotaBlocked (quotaWait dispatched : Bool)
  | sdk (code : String) (reason : Option String)
  | other

/-- What `build_market_minute_request` and the contract say of a snapshot. -/
inductive Built where
  | request (count : Nat)
  | payload
  | contract
  | raises

/-- An exception on the way to the source. -/
inductive Failure where
  | deadline
  | source (code : Option String) (status : Option Nat)

/-- The answers of one run, by the number of the call. -/
structure Answers where
  now : Nat → Datetime
  fetch : Nat → Fetched
  build : Nat → Built
  /-- `owner.restore`; `none` where there is no owner or nothing to restore. -/
  restore : Nat → Except Failure (Option (List Bytes))
  persist : Nat → Except Failure String
  prepare : Nat → Except Failure Bytes
  deliver : Nat → Except Failure (String × String)
  waitTerminal : Nat → Except Failure String

/-- The coordinator and the arguments of `run`. -/
structure Coordinator where
  universeId : String
  governance : Governance
  cutoff : String
  sequences : List PlanRow
  /-- `rows == list(EXPECTED)`. -/
  reviewedRows : Bool
  gateway : Bool
  delivery : Bool
  terminalOnExhaustion : Bool
  target : CivilDate
  deliver : Bool
  preflight : Bool
  historical : Bool

/-! ## What a run leaves behind -/

inductive Event where
  | fetch (key : String × String) (attempt : Nat)
  | upload (key : String × String) (snapshot : Bytes)
  | deliver (key : String × String) (body : Bytes)
deriving DecidableEq, Repr

/-- The database, with the calls that left the machine, oldest first. -/
structure Disk where
  store : Store
  log : List Event

structure Memory where
  answers : Answers
  calls : Nat
  out : List Result

/-- What is raised: out of the database, on the way to the source, or out of `run`. -/
inductive Exc where
  | state (e : Err)
  | failure (f : Failure)
  /-- `ProviderWorkSourceUnavailableError`. -/
  | unavailable
  /-- `ProviderWorkRecoveryBlockedError`. -/
  | recoveryBlocked
  | other

abbrev Run := Process Exc Disk Memory

/-- The next answer. -/
def ask {α : Type} (f : Answers → Nat → α) : Run α :=
  think fun m => (f m.answers m.calls, { m with calls := m.calls + 1 })

def askOrRaise {α : Type} (f : Answers → Nat → Except Failure α) : Run α := do
  lift Exc.failure (← ask f)

def emit (r : Result) : Run Unit := think fun m => ((), { m with out := m.out ++ [r] })

/-- A call leaves the machine. -/
def record (e : Event) : Run Unit := write fun d => { d with log := d.log ++ [e] }

/-- A transaction of the database. -/
def commit {α : Type} (f : Store → Except Err (Store × α)) : Run α :=
  transact Exc.state fun d => (fun r => ({ d with store := r.1 }, r.2)) <$> f d.store

def commit_ (f : Store → Except Err Store) : Run Unit := commit fun s => (·, ()) <$> f s

/-- `_refresh_statuses` in autocommit: one write for each aggregate. -/
def refresh (dailyId : String) : Run Unit := do
  let d ← readDisk
  (d.store.datasetsOf dailyId).forM fun key => commit_ fun s => .ok (s.refreshDataset key)
  commit_ fun s => .ok (s.refreshDaily dailyId)

section
variable (P : Platform) (clock : Clock) (c : Coordinator)

def Coordinator.dailyId (c : Coordinator) : String := c.universeId ++ ":" ++ c.target.isoformat

/-- `mark_terminal`. -/
def markTerminal (d y code : String) (reason : Option String) : Run Unit := do
  commit_ fun s => s.markTerminal d y code reason
  refresh d

/-- `save_raw`. -/
def saveRaw (d y ref sha256 : String) (sizeBytes : Nat) : Run Unit := do
  commit_ fun s => s.saveRaw d y ref sha256 sizeBytes
  let disk ← readDisk
  if disk.store.getRaw d y != some (ref, sha256, sizeBytes) then
    throw (.state (.state "raw object identity changed"))
  refresh d

/-- `save_prepared`. -/
def savePrepared (d y : String) (body : Bytes) : Run Unit := do
  commit_ fun s => s.savePrepared P d y body
  let disk ← readDisk
  if (← lift Exc.state (disk.store.getPrepared P d y)) != some body then
    throw (.state (.state "prepared request identity changed"))
  refresh d

/-- `save_source`. -/
def saveSource (d y attemptId runId : String) (terminal : Option String) : Run Unit := do
  commit_ fun s => s.saveSource d y attemptId runId terminal
  refresh d

/-- `_past_cutoff`. -/
def Clock.pastCutoff (clock : Clock) (now : Datetime) (cutoff : String) : Bool :=
  now.tzinfo.isNone || decide (cutoff ≤ (clock.taipei now).2)

/-- `_valid_target_date`. -/
def validTargetDate (target executionDate : CivilDate) : Bool :=
  decide (executionDate.toordinal - 31 ≤ target.toordinal) &&
  decide (target.toordinal ≤ executionDate.toordinal)

/-- `_GLOBAL_TERMINAL_CODES`. -/
def globalTerminalCodes : List String :=
  ["CREDENTIALS_UNAVAILABLE", "LOGIN_FAILED", "SDK_UNAVAILABLE", "CONTRACT_UNAVAILABLE",
    "KBARS_PAYLOAD", "CONTRACT_INVALID", "DATASET_INACTIVE"]

/-- `get_terminal`. -/
def Store.getTerminal (s : Store) (d y : String) : Option (String × Option String) := do
  let row ← s.sequences.find? (d, y)
  return (← row.terminalStatus, row.terminalReason)

/-! ## Acquisition -/

/-- The two codes and the stage of a failed call of the SDK. -/
def sdkTerminal : String → Option (String × String)
  | "CREDENTIALS" => some ("CREDENTIALS_UNAVAILABLE", "login")
  | "LOGIN" => some ("LOGIN_FAILED", "login")
  | "SDK" => some ("SDK_UNAVAILABLE", "sdk")
  | "CONTRACT" => some ("CONTRACT_UNAVAILABLE", "contract")
  | "PAYLOAD" => some ("KBARS_PAYLOAD", "payload")
  | _ => none

/-- `terminal_on_exhaustion` and the budget is used. -/
def exhausted (y : String) : Run Bool := do
  let disk ← readDisk
  return c.terminalOnExhaustion &&
    decide (c.governance.maxAttempts ≤ disk.store.budgetUsed c.dailyId y)

/-- The attempt is finished, and the row with it: `break`. -/
def failAttempt (y : String) (attempt : Nat) (outcome : Outcome) (code stage : String)
    (retryable : Bool) (reason : Option String) : Run (Except Bool Bytes) := do
  commit_ fun s => s.finishAttempt c.dailyId y attempt outcome code retryable reason
  emit (Result.make code stage 0 retryable none none reason)
  return .error false

/-- `except Exception` of an acquisition. -/
def failOther (y : String) (attempt : Nat) : Run (Except Bool Bytes) := do
  let exhausted ← exhausted c y
  failAttempt c y attempt .failed
    (if exhausted then "ACQUISITION_ATTEMPTS_EXHAUSTED" else "ACQUISITION_FAILED") "acquisition"
    (!exhausted) none

/-- The gateway is called and its answer kept. -/
def fetchSnapshot (y : String) (attempt : Nat) : Run (Except Bool Bytes) := do
  record (.fetch (c.dailyId, y) attempt)
  match ← ask Answers.fetch with
  | .snapshot snap =>
    if MAX_BYTES < snap.length then
      failAttempt c y attempt .failed "KBARS_PAYLOAD" "payload" false (some "snapshot")
    else
      tryCatch (do
        commit_ fun s => s.completeAttemptWithSnapshot c.dailyId y attempt snap
        return .ok snap) fun e => do
          match e with
          | .state (.state _) =>
            emit (Result.of "STATE_UNAVAILABLE" "state")
            return .error false
          | _ => failOther c y attempt
  | .payload => failAttempt c y attempt .failed "KBARS_PAYLOAD" "payload" false (some "snapshot")
  | .sourceUnavailable undispatched =>
    if undispatched then
      commit_ fun s => s.finishAttempt c.dailyId y attempt .waiting "SOURCE_WAIT" true none
    throw .unavailable
  | .quotaBlocked quotaWait dispatched =>
    let waiting := quotaWait && !dispatched
    let exhausted := !waiting && (← exhausted c y)
    let code := if waiting then "QUOTA_WAIT" else if exhausted then "ACQUISITION_ATTEMPTS_EXHAUSTED"
      else "ACQUISITION_FAILED"
    failAttempt c y attempt (if waiting then .waiting else .failed) code "acquisition" (!exhausted) none
  | .sdk code reason =>
    match sdkTerminal code with
    | some (terminal, stage) =>
      failAttempt c y attempt .failed terminal stage false
        (if terminal == "KBARS_PAYLOAD" then reason else none)
    | none => failOther c y attempt
  | .other => failOther c y attempt

/-- A row without a snapshot; `.error` is a row that is done, with whether to go on. -/
def acquireSnapshot (y : String) : Run (Except Bool Bytes) := do
  let now ← ask Answers.now
  if !c.historical && clock.pastCutoff now c.cutoff then
    emit (Result.of "CUTOFF_REACHED" "acquisition")
    return .error false
  if !c.gateway then
    emit (Result.of "GATEWAY_UNAVAILABLE" "login")
    return .error true
  let (ok, attempt) ← commit fun s =>
    s.acquireAttempt c.dailyId y now c.governance c.terminalOnExhaustion
  if !ok then
    match (← readDisk).store.getTerminal c.dailyId y with
    | some (code, reason) =>
      emit (Result.make code "state" 0 false none none reason)
      return .error (!globalTerminalCodes.contains code)
    | none =>
      emit (Result.retry "ATTEMPT_BLOCKED" "acquisition" true)
      return .error false
  let later ← ask Answers.now
  if !c.historical && clock.pastCutoff later c.cutoff then
    failAttempt c y attempt .failed "CUTOFF_REACHED" "acquisition" false none
  else fetchSnapshot c y attempt

/-! ## Delivery -/

/-- The request of a row that has none yet; `none` is a row whose upload is uncertain. -/
def prepareRequest (y : String) (snap : Bytes) : Run (Option Bytes) := do
  match ← askOrRaise Answers.restore with
  | some [body] =>
    savePrepared P c.dailyId y body
    return some body
  | some (_ :: _ :: _) => throw (.state (.state "prepared member identity is ambiguous"))
  | _ =>
    if ((← readDisk).store.getRaw c.dailyId y).isNone then
      let intent ← commit fun s => s.beginRaw P c.dailyId y snap
      if intent == .uncertain then
        markTerminal c.dailyId y "RAW_PERSIST_UNCERTAIN" none
        emit (Result.of "RAW_PERSIST_UNCERTAIN" "raw")
        return none
      record (.upload (c.dailyId, y) snap)
      let ref ← askOrRaise Answers.persist
      saveRaw c.dailyId y ref (P.sha256 snap) snap.length
    let body ← askOrRaise Answers.prepare
    savePrepared P c.dailyId y body
    return some body

/-- The source is called, and its receipt kept. -/
def callSource (y : String) (count : Nat) (body : Bytes) : Run Bool := do
  record (.deliver (c.dailyId, y) body)
  let (attemptId, runId) ← askOrRaise Answers.deliver
  let terminal ← askOrRaise Answers.waitTerminal
  let timeout := terminal == "SOURCE_TERMINAL_TIMEOUT"
  saveSource c.dailyId y attemptId runId (if timeout then none else some terminal)
  emit (Result.make terminal "source" count timeout (some attemptId) (some runId) none)
  return !(terminal == "DATASET_INACTIVE" || timeout)

/-- The delivery of a prepared request. -/
def deliverPrepared (y : String) (count : Nat) (body : Bytes) : Run Bool := do
  if !P.deliverable body then throw .other
  callSource c y count body

/-- The `try` of a delivery. -/
def deliverRow (y : String) (snap : Bytes) (count : Nat) : Option Bytes → Run Bool
  | some body => deliverPrepared P c y count body
  | none => do
    match ← prepareRequest P c y snap with
    | none => return true
    | some body => deliverPrepared P c y count body

/-- `except` of a delivery. -/
def deliveryFailed (y : String) : Exc → Run Bool
  | .failure .deadline => do
    emit (Result.retry "SOURCE_TERMINAL_TIMEOUT" "source" true)
    return false
  | .failure (.source (some "PROVIDER_WORK_FENCE") _) => throw .recoveryBlocked
  | .failure (.source (some "DATASET_INACTIVE") _) => do
    markTerminal c.dailyId y "DATASET_INACTIVE" none
    emit (Result.of "DATASET_INACTIVE" "source")
    return false
  | .failure (.source _ status) => do
    emit (Result.retry "DELIVERY_FAILED" "source" (nullOr (fun s => s == 429 || decide (500 ≤ s)) status))
    return false
  | _ => do
    emit (Result.retry "DELIVERY_FAILED" "source" true)
    return false

/-- A row with its snapshot, and what building its request gave. -/
def finishBuilt (y : String) (snap : Bytes) : Built → Run Bool
  | .payload => do
    markTerminal c.dailyId y "KBARS_PAYLOAD" (some "contract_mapping")
    emit (Result.make "KBARS_PAYLOAD" "payload" 0 false none none (some "contract_mapping"))
    return false
  | .contract => do
    markTerminal c.dailyId y "CONTRACT_INVALID" none
    emit (Result.of "CONTRACT_INVALID" "contract")
    return false
  | .raises => throw .other
  | .request count => do
    if !c.deliver then
      tryCatch (do
        if c.preflight then commit_ fun s => s.markPreflightValidated c.dailyId y
        emit (Result.make "VALIDATED" "payload" count false none none none)
        return true) fun e => do
          match e with
          | .state (.state _) =>
            emit (Result.of "STATE_UNAVAILABLE" "state")
            return false
          | e => throw e
    else if !c.delivery then
      emit (Result.of "DELIVERY_UNAVAILABLE" "raw")
      return true
    else
      let disk ← readDisk
      let prepared ← lift Exc.state (disk.store.getPrepared P c.dailyId y)
      tryCatch (deliverRow P c y snap count prepared) (deliveryFailed c y)

/-- A row with its snapshot. -/
def finishRow (y : String) (snap : Bytes) : Run Bool := do
  let _ ← ask Answers.now
  -- `self.state.sequence`: without the row the request cannot be built
  match (← readDisk).store.sequences.find? (c.dailyId, y) with
  | none => finishBuilt P c y snap .payload
  | some _ => finishBuilt P c y snap (← ask Answers.build)

/-! ## The run -/

/-- The body of the loop; `false` is `break`. -/
def processRow (row : PlanRow) : Run Bool := do
  let y := row.symbol
  match (← readDisk).store.getTerminal c.dailyId y with
  | some (code, reason) =>
    let receipt := ((← readDisk).store.sequences.find? (c.dailyId, y)).bind fun r =>
      r.sourceAttemptId.bind fun attempt => r.sourceRunId.map fun run => (attempt, run)
    emit (Result.make code "state" 0 false (receipt.map (·.1)) (receipt.map (·.2)) reason)
    return !globalTerminalCodes.contains code
  | none =>
    match ((← readDisk).store.sequences.find? (c.dailyId, y)).bind (·.snapshot) with
    | some snap => finishRow P c y snap
    | none =>
      match ← acquireSnapshot clock c y with
      | .error goOn => return goOn
      | .ok snap => finishRow P c y snap

def processRows : List PlanRow → Run Unit
  | [] => return ()
  | row :: rows => do
    if ← processRow P clock c row then processRows rows

/-- `run`. -/
def Coordinator.run : Run Unit := do
  let executionNow ← ask Answers.now
  if executionNow.tzinfo.isNone then
    emit (Result.of "CLOCK_INVALID" "setup")
    return ()
  let executionDate := (clock.taipei executionNow).1
  if !validTargetDate c.target executionDate then
    emit (Result.of "TARGET_DATE_INVALID" "setup")
    return ()
  if !c.historical && clock.pastCutoff executionNow c.cutoff then
    emit (Result.of "CUTOFF_REACHED" "acquisition")
    return ()
  let plan : Plan := ⟨c.dailyId, c.target, c.universeId, P.stableId [c.dailyId, "daily"], c.sequences,
    executionDate⟩
  let ready ← tryCatch (do
    commit_ fun s => s.ensurePlan P plan
    return true) fun e => do
      match e with
      | .state (.state _) =>
        emit (Result.of "STATE_UNAVAILABLE" "state")
        return false
      | e => throw e
  if !ready then return ()
  let first := (c.sequences.head?.map (·.symbol)).getD ""
  let disk ← readDisk
  if c.preflight && !disk.store.preflightIsFresh c.dailyId first then
    match disk.store.getTerminal c.dailyId first with
    | some (code, reason) => emit (Result.make code "state" 0 false none none reason)
    | none => emit (Result.of "PREFLIGHT_NOT_FRESH" "state")
    return ()
  if !c.preflight && !c.deliver && c.reviewedRows && !disk.store.preflightValidated c.dailyId then
    emit (Result.of "PREFLIGHT_REQUIRED" "state")
    return ()
  processRows P clock c (if c.preflight then c.sequences.take 1 else c.sequences)

end
end FinDB.Staging
