import FinDB.ProviderWork.Historical

/-! # claim

A claim opens the first eligible round of the queue, or takes over the round
that already holds the provider. Either way it rotates the identity: the owner
slot and the attempt get the next generation and a new token. -/
namespace FinDB.ProviderWork
open FinDB.Lib

/-- The arguments of `claim`. -/
structure ClaimRequest where
  datasets : List DatasetKey
  hostLockIdentity : String
  requireCutover : Bool
  recover : Bool
  requestedWorkId : Option Uuid
  acceptedKinds : Option (List Kind)
  executionProfile : Option Profile
deriving DecidableEq, Repr

/-- The caller's scope includes the work; otherwise the claim returns nothing. -/
def ClaimRequest.admits (r : ClaimRequest) (work : Work) : Bool :=
  r.acceptedKinds.all (·.contains work.kind) &&
  (r.executionProfile.isNone || work.kind != .daily || work.executionProfile == r.executionProfile) &&
  r.requestedWorkId.all (· == work.workId) && r.datasets.contains work.datasetKey

/-- The rows a successful claim answers with. -/
structure Claimed where
  work : Work
  attempt : Attempt
  owner : Owner
deriving DecidableEq, Repr

/-! ## The queue -/

/-- Delivered bytes are still open, or a source error is waiting. -/
def needsDrain (s : Db) (work : Work) (attempt : Attempt) : Bool :=
  attempt.proof.any (·.sourceErrorPending) || !(s.pendingPrepared work.workId).isEmpty ||
  !s.runsTerminal work.workId

/-- The scheduler control of a daily work is running; without a profile the key the
query builds is `NULL`. -/
def controlRunning (cfg : Config) (s : Db) (work : Work) : Bool :=
  work.executionProfile.isSome && (s.registry.controls work.executionProfile).any fun c =>
    c.provider == cfg.provider && c.desiredRunning && !c.retired

/-- The WHERE clause of the candidate query, for an attempt and its work. -/
def eligible (cfg : Config) (now : Instant) (s : Db) (work : Work) (attempt : Attempt) : Bool :=
  let drain := needsDrain s work attempt
  work.state == .queued && attempt.state == .queued && decide (attempt.notBefore ≤ now) &&
  (work.kind != .daily || drain || dailyWindow cfg.clock cfg.provider now) &&
  (work.kind == .rerun || drain || !s.owner.cooling now) &&
  (work.kind != .daily || drain || controlRunning cfg s work)

/-- The eligible rows of the join. -/
def candidates (cfg : Config) (now : Instant) (s : Db) : List (Work × Attempt) :=
  s.attempts.rows.filterMap fun attempt =>
    (s.works.find? attempt.workId).bind fun work =>
      if eligible cfg now s work attempt then some (work, attempt) else none

/-- `ORDER BY queue_order LIMIT 1`. -/
def firstInQueue : List (Work × Attempt) → Option (Work × Attempt)
  | [] => none
  | c :: rest =>
    match firstInQueue rest with
    | none => some c
    | some best => if best.2.queueOrder < c.2.queueOrder then some best else some c

theorem firstInQueue_mem {cs : List (Work × Attempt)} {c : Work × Attempt}
    (h : firstInQueue cs = some c) : c ∈ cs := by
  induction cs generalizing c with
  | nil => cases h
  | cons d rest ih =>
    simp only [firstInQueue] at h
    split at h
    · cases h; exact List.mem_cons_self
    · rename_i best hbest
      split at h
      · cases h; exact List.mem_cons_of_mem _ (ih hbest)
      · cases h; exact List.mem_cons_self

/-- A candidate is a queued attempt of a queued work. -/
theorem candidates_spec {cfg : Config} {now : Instant} {s : Db} {work : Work} {attempt : Attempt}
    (h : (work, attempt) ∈ candidates cfg now s) :
    attempt ∈ s.attempts ∧ work ∈ s.works ∧ attempt.workId = work.workId ∧
      eligible cfg now s work attempt = true := by
  unfold candidates at h
  obtain ⟨a, ha, h⟩ := List.mem_filterMap.mp h
  obtain ⟨w, hw, h⟩ := Option.bind_eq_some_iff.mp h
  obtain ⟨hmem, hkey⟩ := Table.find?_eq_some.mp hw
  split at h
  · rename_i he
    cases h
    exact ⟨ha, hmem, hkey.symm, he⟩
  · cases h

theorem eligible_queued {cfg : Config} {now : Instant} {s : Db} {work : Work} {attempt : Attempt}
    (h : eligible cfg now s work attempt = true) :
    work.state = .queued ∧ attempt.state = .queued := by
  simp only [eligible, Bool.and_eq_true, beq_iff_eq] at h
  exact ⟨h.1.1.1.1.1, h.1.1.1.1.2⟩

/-! ## The new identity -/

/-- The attempt as the claim hands it out. -/
def Attempt.handed (attempt : Attempt) (state : AttemptState) (startedAt : Option Instant)
    (drainOnly : Bool) (generation : Nat) (token : Uuid) : Attempt :=
  { attempt with state, startedAt, drainOnly, generation := some generation, token := some token }

/-- The owner slot after a claim; only the cooldown stays. -/
def Owner.rotated (owner : Owner) (attemptId token : Uuid) (now : Instant) (host : String) :
    Owner where
  attemptId := some attemptId
  generation := owner.generation + 1
  token := some token
  heartbeatAt := some now
  expiresAt := some (now + heartbeatTtl)
  hostLockIdentity := some host
  recoveryReason := none
  acquisitionNotBefore := owner.acquisitionNotBefore

/-- The writes of a claim: the attempt, its work and the owner slot. -/
def Db.hand (s : Db) (work : Work) (attempt : Attempt) (state : AttemptState)
    (startedAt : Option Instant) (drainOnly : Bool) (token : Uuid) (owner : Owner) : Db :=
  { (s.setAttempt attempt.attemptId
        (·.handed state startedAt drainOnly owner.generation token)).setWork
      work.workId ({ · with state := .running }) with owner }

/-- The rows the same claim answers with. -/
def Claimed.of (work : Work) (attempt : Attempt) (state : AttemptState)
    (startedAt : Option Instant) (drainOnly : Bool) (token : Uuid) (owner : Owner) : Claimed :=
  ⟨{ work with state := .running },
    attempt.handed state startedAt drainOnly owner.generation token, owner⟩

/-- A cooldown of the account holds back every kind but a rerun. -/
def coolingFor (owner : Owner) (work : Work) (now : Instant) : Bool :=
  work.kind != .rerun && owner.cooling now

/-- Everything retained has been accepted and has ended. -/
def Db.drained (s : Db) (workId : Uuid) : Bool :=
  (s.pendingPrepared workId).isEmpty && s.runsTerminal workId

/-- `drain_only` of a fresh round. -/
def claimDrainOnly (cfg : Config) (now utc : Instant) (s : Db) (work : Work) (attempt : Attempt) :
    Bool :=
  let canAcquire := acquisitionOpen cfg utc s { work with state := .running } true
  let resumed := (work.kind == .daily || work.kind == .historical) && attempt.drainOnly &&
    canAcquire && s.drained work.workId
  (attempt.drainOnly && !resumed) || !canAcquire || coolingFor s.owner work now

/-! ## The call -/

/-- The branch without an owner: the first eligible round, if the caller's scope has it. -/
def claimFresh (cfg : Config) (now utc : Instant) (token : Uuid) (r : ClaimRequest) (s : Db) :
    Db × Option Claimed :=
  let s := reconcileCancelledQueue cfg now utc s
  match firstInQueue (candidates cfg now s) with
  | none => (s, none)
  | some (work, attempt) =>
    if !r.admits work then (s, none)
    else
      let owner := s.owner.rotated attempt.attemptId token now r.hostLockIdentity
      let drain := claimDrainOnly cfg now utc s work attempt
      (s.hand work attempt .opened (some now) drain token owner,
        some (.of work attempt .opened (some now) drain token owner))

/-- A missing heartbeat blocks the round until its host recovers it. -/
def Db.block (s : Db) (work : Work) (attempt : Attempt) : Db :=
  { (s.setAttempt attempt.attemptId fun a =>
        { a with state := if a.state == .opened then .recoveryBlocked else a.state }).setWork
      work.workId ({ · with state := .recoveryBlocked }) with
    owner := { s.owner with recoveryReason := some "heartbeat_missing" } }

/-- The branch with an owner: the same round resumes, never the next one. -/
def claimOwned (now : Instant) (token : Uuid) (r : ClaimRequest) (work : Work) (attempt : Attempt)
    (s : Db) : Except Err (Db × Option Claimed) :=
  if !r.admits work then .ok (s, none)
  else if !r.recover then
    .ok (if s.owner.expiresAt.all fun t => decide (t ≤ now) then s.block work attempt else s, none)
  else do
    ensure (s.owner.hostLockIdentity == some r.hostLockIdentity)
      (conflict "recovery requires the original shared host lock inode")
    let owner := s.owner.rotated attempt.attemptId token now r.hostLockIdentity
    let state := if attempt.state == .recoveryBlocked then .opened else attempt.state
    let drain := attempt.drainOnly || coolingFor s.owner work now
    return (s.hand work attempt state attempt.startedAt drain token owner,
      some (.of work attempt state attempt.startedAt drain token owner))

/-- `claim`. The caller may pass `now`; `utc` is what the gates read themselves. -/
def claim (cfg : Config) (now utc : Instant) (token : Uuid) (r : ClaimRequest) (s : Db) :
    Except Err (Db × Option Claimed) := do
  ensure (!(r.requireCutover && s.owner.hostLockIdentity.isNone))
    (conflict "provider work requires verified cutover preflight")
  ensure (!truthy s.owner.hostLockIdentity || s.owner.hostLockIdentity == some r.hostLockIdentity)
    (conflict "provider shared host lock inode differs")
  ensure (!(truthy s.owner.recoveryReason && s.owner.attemptId.isNone))
    (conflict "legacy provider work requires verified cutover drain")
  match s.owner.attemptId with
  | none => return claimFresh cfg now utc token r s
  | some attemptId =>
    let attempt ← need (s.attempts.find? attemptId)
      (.integrity "provider_work_owner_attempt_id_fkey")
    let work ← need (s.works.find? attempt.workId)
      (.integrity "provider_work_attempt_work_id_fkey")
    claimOwned now token r work attempt s

/-- What a claim leaves in the database. -/
def claimDb (cfg : Config) (now utc : Instant) (token : Uuid) (r : ClaimRequest) (s : Db) :
    Except Err Db :=
  (claim cfg now utc token r s).map (·.1)

end FinDB.ProviderWork
