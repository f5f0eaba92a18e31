import FinDB.Lib.Raise
import FinDB.ProviderWork.Rows

/-! # Who may acquire

`acquisition_open` decides whether a work may still ask its provider for data,
and `fence` whether a caller speaks for the current owner. Both only read.
A call reads the clock once, as `utc`. -/
namespace FinDB.ProviderWork
open FinDB.Lib

/-- `HEARTBEAT_TTL`. -/
def heartbeatTtl : Nat := 2 * minute

/-! ## The acquisition gates -/

/-- `_max_backfill_days`. -/
def maxBackfillDays (cfg : Config) : Nat :=
  match cfg.provider with
  | .shioaji => 31
  | _ => if cfg.production then 366 else 31

/-- `_provider_current_date`. -/
def providerCurrentDate (cfg : Config) (now : Instant) : Date :=
  (cfg.clock.localTime (providerTimezone cfg.provider) now).date

/-- `expiry_cutoff`: the oldest date a historical claim may still acquire. -/
def expiryCutoff (cfg : Config) (now : Instant) : Date :=
  let grace : Int := match cfg.provider with
    | .taifex | .factset => 1
    | _ => 0
  providerCurrentDate cfg now - ((maxBackfillDays cfg : Int) - grace)

/-- `hk_provider_cutover.acquisition_allowed` for the HK dataset. -/
def acquisitionAllowed (cfg : Config) (utc : Instant) (dataset : Dataset)
    (tradeDate : Option Date) (maintenance : Bool) : Bool :=
  match cfg.provider with
  | .twelveData => false
  | .factset =>
    if maintenance then true
    else match dataset.hkProviderCutover with
      | none => false
      | some cutover =>
        match cutover.effectiveDate with
        | none => false
        | some boundary =>
          cutover.provider == some "factset" && cutover.previousProvider == some "twelve_data" &&
          decide (boundary ≤ (cfg.clock.localTime "Asia/Hong_Kong" utc).date) &&
          tradeDate.all fun d => decide (boundary ≤ d)
  | _ => true

/-- `UUID(scope.get("item_id", scope.get("legacy_id")))`. -/
def Work.itemRef (work : Work) : Option Uuid := work.scope.itemId <|> work.scope.legacyId

/-- The frozen plan a manifest names, when it names one. -/
def Work.planRef (work : Work) : Option PlanRef := work.manifest.bind (·.planId)

def Work.decision (s : Db) (work : Work) : Option DecisionKind :=
  s.registry.decisions work.datasetKey work.tradeDate work.executionProfile

/-- The HK gate: every kind but a rerun asks it. -/
def hkOpen (cfg : Config) (utc : Instant) (s : Db) (work : Work) : Bool :=
  if work.kind != .rerun && work.datasetKey == "hk_equity_eod" then
    match s.registry.datasets work.datasetKey with
    | none => false
    | some dataset =>
      acquisitionAllowed cfg utc dataset (if work.kind == .daily then work.tradeDate else none)
        (work.kind == .maintenance)
  else true

/-- The item is live, its request is live and its date has not expired. -/
def historicalOpen (cfg : Config) (utc : Instant) (s : Db) (work : Work) : Bool :=
  match work.itemRef.bind s.items.find? with
  | none => false
  | some item =>
    match s.requests.find? item.requestId with
    | none => false
    | some request =>
      item.status.live && request.status.live && decide (expiryCutoff cfg utc ≤ item.tradeDate)

/-- `acquisition_open(work, check_window=..)`. -/
def acquisitionOpen (cfg : Config) (utc : Instant) (s : Db) (work : Work) (checkWindow : Bool) :
    Bool :=
  if work.state == .calendarClosed then false
  else if work.kind == .daily && work.planRef.isSome && work.decision s == some .skippedCalendar then
    false
  else if !hkOpen cfg utc s work then false
  else match work.kind with
    | .daily =>
      if work.executionProfile == some .fullMarket && !cfg.fullMarketEnabled then false
      else if checkWindow && !dailyWindow cfg.clock cfg.provider utc then false
      else (s.registry.controls work.executionProfile).any (·.desiredRunning)
    | .historical => historicalOpen cfg utc s work
    | .maintenance | .rerun => true

/-- A closed request keeps every work of its items closed. -/
theorem acquisitionOpen_historical {cfg : Config} {utc : Instant} {s : Db} {work : Work}
    {checkWindow : Bool} (hk : work.kind = .historical)
    (h : acquisitionOpen cfg utc s work checkWindow = true) :
    ∃ itemId item request, work.itemRef = some itemId ∧ s.items.find? itemId = some item ∧
      s.requests.find? item.requestId = some request ∧
      item.status.live = true ∧ request.status.live = true := by
  unfold acquisitionOpen at h
  simp only [hk] at h
  split at h
  · cases h
  split at h
  · cases h
  split at h
  · cases h
  unfold historicalOpen at h
  split at h
  · cases h
  · rename_i item hitem
    obtain ⟨itemId, href, hfind⟩ := Option.bind_eq_some_iff.mp hitem
    split at h
    · cases h
    · rename_i request hrequest
      simp only [Bool.and_eq_true] at h
      exact ⟨itemId, item, request, href, hfind, hrequest, h.1.1, h.1.2⟩

/-! ## The fence -/

/-- What a claim hands out and every later call presents. -/
structure FenceIdentity where
  workId : Uuid
  generation : Nat
  token : Uuid
deriving DecidableEq, Repr

/-- The attempt the owner slot points to. -/
def Db.ownedAttempt (s : Db) : Option Attempt := s.owner.attemptId.bind s.attempts.find?

/-- `owner.recovery_reason or owner.expires_at is None or owner.expires_at <= utc_now()`. -/
def Owner.needsRecovery (owner : Owner) (utc : Instant) : Bool :=
  truthy owner.recoveryReason || owner.expiresAt.all fun t => decide (t ≤ utc)

/-- `owner.acquisition_not_before and owner.acquisition_not_before > now`. -/
def Owner.cooling (owner : Owner) (now : Instant) : Bool :=
  owner.acquisitionNotBefore.any fun t => decide (now < t)

/-- The identity part of `fence`. -/
def FenceIdentity.owns (identity : FenceIdentity) (s : Db) (attempt : Attempt) : Bool :=
  attempt.workId == identity.workId && s.owner.generation == identity.generation &&
  s.owner.token == some identity.token

def fenceMismatch : Err :=
  .work "provider work owner fence differs" "PROVIDER_WORK_FENCE_MISMATCH"

def recoveryRequired : Err :=
  .work "provider work requires host recovery" "PROVIDER_WORK_RECOVERY_REQUIRED"

/-- FactSet's own evening window. -/
def factsetWindow (cfg : Config) (utc : Instant) (work : Work) : Bool :=
  if cfg.provider == .factset && work.kind == .daily then
    let time := (cfg.clock.localTime "Asia/Hong_Kong" utc).time
    decide (timeOfDay 18 30 ≤ time ∧ time < timeOfDay 23 0)
  else true

/-- The gates `fence(acquisition=True)` adds. -/
def fenceAcquisition (cfg : Config) (utc : Instant) (s : Db) (work : Work) (attempt : Attempt) :
    Except Err Unit := do
  ensure (!(work.kind != .rerun && s.owner.cooling utc))
    (.suspended "provider account cooldown is pending")
  ensure (attempt.state == .opened && work.state == .running && !attempt.drainOnly)
    (conflict "provider work acquisition is closed")
  ensure (factsetWindow cfg utc work) (.suspended "FactSet daily acquisition window is closed")
  ensure (work.kind == .rerun || acquisitionOpen cfg utc s work true)
    (.suspended "provider acquisition is stopped or expired")

/-- `fence(.., acquisition=..)`: the owner's work and attempt, or the refusal. -/
def fence (cfg : Config) (utc : Instant) (identity : FenceIdentity) (acquisition : Bool) (s : Db) :
    Except Err (Work × Attempt) := do
  let attempt ← need (s.ownedAttempt.filter (identity.owns s)) fenceMismatch
  let work ← need (s.works.find? identity.workId) (.integrity "provider_work_attempt_work_id_fkey")
  ensure (!s.owner.needsRecovery utc) recoveryRequired
  if acquisition then fenceAcquisition cfg utc s work attempt
  return (work, attempt)

/-- What passing the fence proves about the owner slot. -/
structure Fenced (utc : Instant) (identity : FenceIdentity) (s : Db) (work : Work)
    (attempt : Attempt) : Prop where
  owned : s.owner.attemptId = some attempt.attemptId
  mem : attempt ∈ s.attempts
  ofWork : attempt.workId = work.workId
  workId : work.workId = identity.workId
  workMem : work ∈ s.works
  generation : s.owner.generation = identity.generation
  token : s.owner.token = some identity.token
  live : s.owner.needsRecovery utc = false

theorem fence_fenced {cfg : Config} {utc : Instant} {identity : FenceIdentity} {acquisition : Bool}
    {s : Db} {work : Work} {attempt : Attempt}
    (h : fence cfg utc identity acquisition s = .ok (work, attempt)) :
    Fenced utc identity s work attempt := by
  unfold fence at h
  obtain ⟨a, ha, h⟩ := ok_bind h
  obtain ⟨w, hw, h⟩ := ok_bind h
  obtain ⟨_, hr, h⟩ := ok_bind h
  have he : (work, attempt) = (w, a) := by
    cases acquisition with
    | false => exact ok_pure h
    | true =>
      obtain ⟨_, _, h⟩ := ok_bind h
      exact ok_pure h
  cases he
  obtain ⟨hown, hid⟩ := Option.filter_eq_some_iff.mp (need_ok.mp ha)
  obtain ⟨k, hk, hfind⟩ := Option.bind_eq_some_iff.mp hown
  obtain ⟨hmem, hkey⟩ := Table.find?_eq_some.mp hfind
  obtain ⟨hwmem, hwkey⟩ := Table.find?_eq_some.mp (need_ok.mp hw)
  simp only [FenceIdentity.owns, Bool.and_eq_true, beq_iff_eq] at hid
  refine ⟨by rw [hk, hkey], hmem, by rw [hid.1.1, hwkey], hwkey, hwmem, hid.1.2, hid.2, ?_⟩
  simpa using ensure_ok.mp hr

/-- An acquisition fence passes only for an open round of a running work that
does not merely drain, outside every cooldown. -/
theorem fence_acquisition {cfg : Config} {utc : Instant} {identity : FenceIdentity} {s : Db}
    {work : Work} {attempt : Attempt} (h : fence cfg utc identity true s = .ok (work, attempt)) :
    attempt.state = .opened ∧ work.state = .running ∧ attempt.drainOnly = false ∧
      (work.kind = .rerun ∨ acquisitionOpen cfg utc s work true = true) := by
  unfold fence at h
  obtain ⟨a, _, h⟩ := ok_bind h
  obtain ⟨w, _, h⟩ := ok_bind h
  obtain ⟨_, _, h⟩ := ok_bind h
  obtain ⟨_, hg, h⟩ := ok_bind h
  cases ok_pure h
  unfold fenceAcquisition at hg
  obtain ⟨_, _, hg⟩ := ok_bind hg
  obtain ⟨_, hc, hg⟩ := ok_bind hg
  obtain ⟨_, _, ho⟩ := ok_bind hg
  have hc := ensure_ok.mp hc
  have ho := ensure_ok.mp ho
  simp only [Bool.and_eq_true, beq_iff_eq, Bool.not_eq_true'] at hc
  exact ⟨hc.1.1, hc.1.2, hc.2, by simpa using ho⟩

end FinDB.ProviderWork
