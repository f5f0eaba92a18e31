import FinDB.Staging.Store

/-! # The methods of the staging database

A method that is one transaction returns the state it commits; a raise rolls back. The
methods in autocommit are given by the statement that writes the row. -/
namespace FinDB.Staging
open FinDB.Lib
open FinDB.Scheduler (Datetime)

/-! ## Attempts -/

/-- The limits of the manifest. -/
structure Governance where
  maxRequests : Nat
  rollingSeconds : Nat
  maxAttempts : Nat
deriving DecidableEq, Repr

/-- `outcome='waiting' AND code IN ('QUOTA_WAIT','SOURCE_WAIT')`. -/
def Attempt.isWait (a : Attempt) : Bool :=
  a.outcome == .waiting && (a.code == some "QUOTA_WAIT" || a.code == some "SOURCE_WAIT")

def Attempt.of (dailyId symbol : String) (a : Attempt) : Bool :=
  decide ((a.dailyId, a.symbol) = (dailyId, symbol))

def Store.attemptsOf (s : Store) (dailyId symbol : String) : List Attempt :=
  s.providerAttempts.rows.filter (Attempt.of dailyId symbol)

/-- `budget_used`. -/
def Store.budgetUsed (s : Store) (dailyId symbol : String) : Nat :=
  ((s.attemptsOf dailyId symbol).filter fun a => !a.isWait).length

def leaseSeconds : Int := 120

/-- `lease and lease > now_text`. -/
def Sequence.leased (r : Sequence) (now : UtcTime) : Bool :=
  r.leaseUntil.any fun lease => before now lease

/-- `used`: the reservations of the window less the proven waits in it. -/
def Store.used (s : Store) (cutoff : UtcTime) : Int :=
  s.limiter.length -
    (s.providerAttempts.rows.filter fun a => a.isWait && !before a.createdAt cutoff).length

/-- `acquire_attempt`. -/
def Store.acquireAttempt (s : Store) (dailyId symbol : String) (now : Datetime) (gov : Governance)
    (terminalOnExhaustion : Bool) : Except Err (Store × Bool × Nat) := do
  let nowText ← utc now
  let cutoff ← utc (← shift now (-gov.rollingSeconds))
  let s := { s with limiter := s.limiter.filter fun usedAt => !before usedAt cutoff }
  let sequence ← need (s.sequences.find? (dailyId, symbol))
    (.state "provider sequence is outside frozen checkpoint scope")
  let used := s.used cutoff
  let waits := ((s.attemptsOf dailyId symbol).filter Attempt.isWait).length
  let budgetUsed : Int := sequence.attempts - waits
  if terminalOnExhaustion && decide ((gov.maxAttempts : Int) ≤ budgetUsed) &&
      sequence.terminalStatus.isNone && !sequence.leased nowText then
    let s ← s.updateSequences (fun r => r.key == (dailyId, symbol) && r.terminalStatus.isNone)
      fun r => { r with
        terminalStatus := some "ACQUISITION_ATTEMPTS_EXHAUSTED", status := .terminal,
        leaseUntil := none }
    return (s.refreshStatuses dailyId, false, sequence.attempts)
  if sequence.terminalStatus.isSome || decide ((gov.maxAttempts : Int) ≤ budgetUsed) ||
      decide ((gov.maxRequests : Int) ≤ used) || sequence.leased nowText then
    return (s, false, sequence.attempts)
  let number := sequence.attempts + 1
  let lease ← utc (← shift now leaseSeconds)
  let s ← s.updateSequences (fun r => r.key == (dailyId, symbol)) fun r => { r with
    attempts := number, leaseUntil := some lease, status := .acquiring }
  let attempt : Attempt := ⟨dailyId, symbol, number, nowText, .started, none, none⟩
  let providerAttempts ← need (s.providerAttempts.insert? attempt) .integrity
  return ({ s with providerAttempts, limiter := s.limiter ++ [nowText] }, true, number)

/-- `_validated_payload_reason`. -/
def validatedPayloadReason (code : String) (reason : Option String) : Except Err (Option String) := do
  ensure (reason.isNone || (code == "KBARS_PAYLOAD" && nullOr payloadReasons.contains reason))
    (.state "payload reason is invalid")
  return reason

/-- An attempt that is still `started`. -/
def Attempt.open (key : String × String × Nat) (a : Attempt) : Bool :=
  a.key == key && a.outcome == .started

/-- `finish_attempt`. -/
def Store.finishAttempt (s : Store) (dailyId symbol : String) (attempt : Nat) (outcome : Outcome)
    (code : String) (retryable : Bool) (reason : Option String) : Except Err Store := do
  let reason ← validatedPayloadReason code reason
  let status : Status :=
    if outcome == .success then .acquired else if retryable then .pending else .failed
  let terminalCode := if outcome == .success || retryable then none else some code
  let matching := Attempt.open (dailyId, symbol, attempt)
  let updated := (s.providerAttempts.rows.filter matching).length
  let s ← s.updateAttempts matching fun a => { a with outcome, code := some code, reason }
  ensure (updated == 1) (.state "provider attempt identity changed")
  let s ← s.updateSequences (fun r => r.key == (dailyId, symbol)) fun r => { r with
    leaseUntil := none, status, terminalStatus := terminalCode <|> r.terminalStatus,
    terminalReason := reason <|> r.terminalReason }
  return s.refreshStatuses dailyId

/-- `complete_attempt_with_snapshot`. -/
def Store.completeAttemptWithSnapshot (s : Store) (dailyId symbol : String) (attempt : Nat)
    (snapshot : Bytes) : Except Err Store := do
  ensure (lengthWithin 1 MAX_BYTES snapshot.length) (.state "snapshot exceeds limit")
  let matching := Attempt.open (dailyId, symbol, attempt)
  let updated := (s.providerAttempts.rows.filter matching).length
  let s ← s.updateAttempts matching fun a =>
    { a with outcome := .success, code := some "ACQUIRED", reason := none }
  ensure (updated == 1) (.state "provider attempt identity changed")
  let s ← s.updateSequences (fun r => r.key == (dailyId, symbol)) fun r => { r with
    snapshot := some snapshot, leaseUntil := none, status := .acquired }
  return s.refreshStatuses dailyId

/-- `mark_cutoff`. -/
def Store.markCutoff (s : Store) (dailyId : String) : Except Err (Store × Nat) := do
  let s ← s.updateAttempts (fun a => a.dailyId == dailyId && a.outcome == .started) fun a =>
    { a with outcome := .failed, code := some "CUTOFF_REACHED" }
  let unfinished (r : Sequence) : Bool := r.dailyId == dailyId && r.terminalStatus.isNone
  let updated := (s.sequences.rows.filter unfinished).length
  let s ← s.updateSequences unfinished fun r => { r with
    terminalStatus := some "CUTOFF_REACHED", terminalReason := none, status := .terminal,
    leaseUntil := none }
  return (if updated == 0 then s else s.refreshStatuses dailyId, updated)

/-- The statement of `mark_terminal`. -/
def Store.markTerminal (s : Store) (dailyId symbol code : String) (reason : Option String) :
    Except Err Store := do
  ensure (lengthWithin 1 64 code.length) (.state "terminal code is invalid")
  let reason ← validatedPayloadReason code reason
  s.updateSequences (fun r => r.key == (dailyId, symbol)) fun r => { r with
    terminalStatus := some code, terminalReason := reason, status := .terminal, leaseUntil := none }

/-! ## The raw object and the prepared request -/

variable (P : Platform)

inductive Intent where
  | started | uncertain | complete
deriving DecidableEq, Repr

/-- `begin_raw`. -/
def Store.beginRaw (s : Store) (dailyId symbol : String) (snapshot : Bytes) :
    Except Err (Store × Intent) := do
  let digest := P.sha256 snapshot
  let row ← need (s.sequences.find? (dailyId, symbol)) (.state "raw sequence is missing")
  match row.rawRef, row.rawSha256, row.rawSize with
  | none, none, none =>
    let s ← s.updateSequences (fun r => r.key == (dailyId, symbol)) fun r => { r with
      rawSha256 := some digest, status := .rawUploading }
    return (s, .started)
  | none, some stored, none =>
    ensure (stored == digest) (.state "raw object identity changed")
    return (s, .uncertain)
  | some _, some stored, some _ =>
    ensure (stored == digest) (.state "raw object identity changed")
    return (s, .complete)
  | _, _, _ => throw (.state "raw object identity changed")

/-- `get_raw`. -/
def Store.getRaw (s : Store) (dailyId symbol : String) : Option (String × String × Nat) := do
  let row ← s.sequences.find? (dailyId, symbol)
  return (← row.rawRef, ← row.rawSha256, ← row.rawSize)

/-- The statement of `save_raw`. -/
def Store.saveRaw (s : Store) (dailyId symbol ref sha256 : String) (sizeBytes : Nat) :
    Except Err Store := do
  ensure (lengthWithin 1 2048 ref.length && sha256.length == 64 &&
    sha256.toList.all hexDigits.contains && lengthWithin 1 MAX_BYTES sizeBytes)
    (.state "raw object metadata is invalid")
  s.updateSequences (fun r => r.key == (dailyId, symbol)) fun r => { r with
    rawRef := r.rawRef <|> some ref, rawSha256 := r.rawSha256 <|> some sha256,
    rawSize := r.rawSize <|> some sizeBytes, status := .rawPersisted }

/-- `_validate_prepared`: the row with its data set and its update. -/
def Store.validatePrepared (s : Store) (dailyId symbol : String) (body : Bytes) : Bool :=
  (do
    let q ← s.sequences.find? (dailyId, symbol)
    let d ← s.datasetSnapshots.find? (dailyId, q.datasetKey)
    let u ← s.dailyUpdates.find? dailyId
    return P.validPrepared u d q body).getD false

/-- The statement of `save_prepared`. -/
def Store.savePrepared (s : Store) (dailyId symbol : String) (body : Bytes) : Except Err Store := do
  ensure (lengthWithin 1 MAX_BYTES body.length) (.state "prepared request exceeds limit")
  ensure (P.deliverable body) (.state "prepared request is invalid")
  ensure (s.validatePrepared P dailyId symbol body) (.state "prepared request identity changed")
  s.updateSequences (fun r => r.key == (dailyId, symbol)) fun r => { r with
    prepared := r.prepared <|> some body,
    preparedSha256 := r.preparedSha256 <|> some (P.sha256 body), status := .prepared }

/-- `get_prepared`. -/
def Store.getPrepared (s : Store) (dailyId symbol : String) : Except Err (Option Bytes) := do
  match s.sequences.find? (dailyId, symbol) with
  | none => return none
  | some row =>
    match row.prepared with
    | none => return none
    | some body =>
      ensure (row.preparedSha256 == some (P.sha256 body)) (.state "prepared request checksum changed")
      ensure (s.validatePrepared P dailyId symbol body) (.state "prepared request identity changed")
      return some body

/-- The statement of `save_source`. -/
def Store.saveSource (s : Store) (dailyId symbol attemptId runId : String) (terminal : Option String) :
    Except Err Store :=
  s.updateSequences (fun r => r.key == (dailyId, symbol)) fun r => { r with
    sourceAttemptId := some attemptId, sourceRunId := some runId,
    terminalStatus := terminal <|> r.terminalStatus,
    status := if terminal.isNone then .delivered else .terminal }

/-! ## The preflight -/

/-- `mark_preflight_validated`. -/
def Store.markPreflightValidated (s : Store) (dailyId symbol : String) : Except Err Store := do
  let valid := (s.sequences.find? (dailyId, symbol)).any fun r =>
    r.attempts == 1 && r.snapshot.isSome && r.terminalStatus.isNone && r.status == .acquired
  ensure valid (.state "preflight state is invalid")
  let pending (r : DailyUpdate) : Bool := r.dailyId == dailyId && r.preflightStatus == .pending
  ensure ((s.dailyUpdates.rows.filter pending).length == 1) (.state "preflight state is invalid")
  return { s with dailyUpdates := s.dailyUpdates.update pending fun r =>
    { r with preflightStatus := .validated } }

/-- `preflight_validated`. -/
def Store.preflightValidated (s : Store) (dailyId : String) : Bool :=
  (s.dailyUpdates.find? dailyId).any fun r => r.preflightStatus == .validated

/-- The row as it was planned. -/
def Sequence.untouched (r : Sequence) : Bool :=
  r.attempts == 0 && r.leaseUntil.isNone && r.snapshot.isNone && r.rawRef.isNone &&
  r.rawSha256.isNone && r.rawSize.isNone && r.prepared.isNone && r.preparedSha256.isNone &&
  r.sourceAttemptId.isNone && r.sourceRunId.isNone && r.terminalStatus.isNone &&
  r.terminalReason.isNone && r.status == .pending

/-- `preflight_is_fresh`. -/
def Store.preflightIsFresh (s : Store) (dailyId symbol : String) : Bool :=
  let rows := s.sequences.rows.filter fun r => r.dailyId == dailyId
  rows.any (·.symbol == symbol) && rows.all Sequence.untouched &&
  s.dailyUpdates.rows.length == 1 &&
  (s.dailyUpdates.find? dailyId).any (·.status == .pending) &&
  ((s.datasetSnapshots.rows.filter fun r => r.dailyId == dailyId).all (·.status == .pending)) &&
  s.providerAttempts.rows.isEmpty && s.limiter.isEmpty

/-! ## Opening the file -/

/-- `_validate_semantics`: of a row with its attempts. -/
def Store.validSequence (s : Store) (r : Sequence) : Bool :=
  decide (s.budgetUsed r.dailyId r.symbol ≤ 3) &&
  -- `ORDER BY attempt_no`: the numbers are the primary key, so sorting them lists the set
  ((s.attemptsOf r.dailyId r.symbol).map (·.attemptNo)).mergeSort == List.range' 1 r.attempts &&
  nullOr (fun digest => digest.length == 64 && digest.toList.all hexDigits.contains) r.rawSha256 &&
  (match r.snapshot, r.rawSha256 with
    | some snapshot, some digest => P.sha256 snapshot == digest
    | _, _ => true) &&
  nullOr (fun ref => decide (ref.length ≤ 2048)) r.rawRef &&
  (match r.rawSize, r.snapshot with
    | some size, some snapshot => size == snapshot.length
    | _, _ => true) &&
  (match r.prepared with
    | some body => r.preparedSha256 == some (P.sha256 body) &&
        s.validatePrepared P r.dailyId r.symbol body
    | none => true)

/-- `_validate_semantics`. -/
def Store.validSemantics (s : Store) : Bool :=
  (s.dailyUpdates.rows.all fun r =>
    decide (r.executionDate.toordinal - 31 ≤ r.targetDate.toordinal) &&
    decide (r.targetDate.toordinal ≤ r.executionDate.toordinal)) &&
  s.sequences.rows.all (s.validSequence P)

end FinDB.Staging
