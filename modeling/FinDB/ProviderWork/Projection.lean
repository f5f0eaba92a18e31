import Mathlib.Data.List.Sort
import FinDB.ProviderWork.Coverage
import FinDB.ProviderWork.Fifo

/-! # The admin projection of the queue

`projection` reads every unsettled round beside its work, without the bodies, and
classifies it with booleans of its own: whether it would run, whether it could only
drain, and what it waits for. Both classifications are written a second time, for
`claim` and for `acquisition_open`; here they are compared. -/
namespace FinDB.ProviderWork
open FinDB.Lib

/-! ## What the page selects -/

/-- `proof["scheduling"]`, the columns the page shows. -/
structure Batch where
  reason : Option String
  /-- `failures[..]["reason"]`. -/
  failures : List (Option String)
deriving DecidableEq, Repr

/-- A row of the join of works and rounds. -/
structure PendingRow where
  workId : Uuid
  datasetKey : DatasetKey
  kind : Kind
  stableKey : StableKey
  tradeDate : Option Date
  executionProfile : Option Profile
  itemId : Option Uuid
  legacyId : Option Uuid
  hasItemId : Bool
  attemptId : Uuid
  state : AttemptState
  queueOrder : Nat
  attemptNumber : Nat
  drainOnly : Bool
  notBefore : Instant
  sourceErrorPending : Bool
  hasPrepared : Bool
  pendingPrepared : Bool
  pendingRun : Bool
  lastBatch : Option Batch
  lastFailureCode : Option String
deriving DecidableEq, Repr

/-- The reasons the page gives for waiting. -/
inductive WaitReason where
  | recoveryRequired | providerActive | acquisitionWindowClosed | accountCooldown | batchYield
  | notBefore | suspended | preparedDrain
deriving DecidableEq, Repr

structure QueueRow where
  workId : Uuid
  datasetKey : DatasetKey
  kind : Kind
  stableKey : StableKey
  tradeDate : Option Date
  executionProfile : Option Profile
  state : AttemptState
  queueOrder : Nat
  position : Option Nat
  active : Bool
  attemptNumber : Nat
  drainOnly : Bool
  notBefore : Instant
  heartbeatAt : Option Instant
  dailyRuntimeWindow : Option Bool
  lastBatch : Option Batch
  lastFailureCode : Option String
  waitReason : Option WaitReason
deriving DecidableEq, Repr

section Select
variable (scheduling : Proof → Option Batch) (s : Db)

/-- The newest of some rounds. -/
def newest (rounds : List Attempt) : Option Attempt :=
  (rounds.insertionSort fun a b => b.attemptNumber ≤ a.attemptNumber).head?

/-- `proof["scheduling"]["failures"][0]["reason"]`. -/
def memberFailure (attempt : Attempt) : Option String :=
  ((attempt.proof.bind scheduling).bind (·.failures.head?)).join

/-- `scheduling` of the last settled round. -/
def workLastBatch (workId : Uuid) : Option Batch :=
  (newest (s.attempts.rows.filter fun a => a.workId == workId && a.state == .settled)).bind fun a =>
    a.proof.bind scheduling

/-- The last failure any round of the work has recorded. -/
def workLastFailure (workId : Uuid) : Option String :=
  (newest (s.attempts.rows.filter fun a => a.workId == workId &&
    (a.failureCode.isSome || (memberFailure scheduling a).isSome))).bind fun a =>
      a.failureCode <|> memberFailure scheduling a

def PendingRow.of (work : Work) (attempt : Attempt) : PendingRow where
  workId := work.workId
  datasetKey := work.datasetKey
  kind := work.kind
  stableKey := work.stableKey
  tradeDate := work.tradeDate
  executionProfile := work.executionProfile
  itemId := work.scope.itemId
  legacyId := work.scope.legacyId
  hasItemId := work.scope.itemId.isSome
  attemptId := attempt.attemptId
  state := attempt.state
  queueOrder := attempt.queueOrder
  attemptNumber := attempt.attemptNumber
  drainOnly := attempt.drainOnly
  notBefore := attempt.notBefore
  sourceErrorPending := attempt.proof.any (·.sourceErrorPending)
  hasPrepared := !(s.preparedOf work.workId).isEmpty
  pendingPrepared := !(s.pendingPrepared work.workId).isEmpty
  pendingRun := !s.runsTerminal work.workId
  lastBatch := workLastBatch scheduling s work.workId
  lastFailureCode := workLastFailure scheduling s work.workId

/-- The join, in queue order. -/
def pendingRounds : List (Work × Attempt) :=
  (s.attempts.rows.filterMap fun attempt =>
    (s.works.find? attempt.workId).bind fun work =>
      if attempt.state != .settled && work.state != .calendarClosed then some (work, attempt)
      else none).insertionSort fun x y => x.2.queueOrder ≤ y.2.queueOrder

end Select

/-! ## Whether a work could still acquire -/

section Acquisition
variable (cfg : Config) (now : Instant) (s : Db)

/-- The rows the batched check is made for. -/
def PendingRow.relevant (row : PendingRow) : Bool :=
  !row.drainOnly && (row.hasPrepared || row.sourceErrorPending)

/-- `historical_dates.get(item_ids.get(work_id))`: the date of a live item. -/
def PendingRow.historicalDate (row : PendingRow) : Option Date :=
  ((if row.hasItemId then row.itemId else row.legacyId).bind s.items.find?).bind fun item =>
    (s.requests.find? item.requestId).bind fun request =>
      if item.status.live && request.status.live then some item.tradeDate else none

/-- The HK clause. -/
def PendingRow.hkAllowed (row : PendingRow) : Bool :=
  if row.kind != .rerun && row.datasetKey == "hk_equity_eod" then
    (s.registry.datasets "hk_equity_eod").any fun dataset =>
      acquisitionAllowed cfg now dataset (if row.kind == .daily then row.tradeDate else none)
        (row.kind == .maintenance)
  else true

/-- One entry of `_projection_acquisition_states`; the controls it is given include
the retired ones. -/
def PendingRow.acquisitionState (row : PendingRow) : Bool :=
  match row.kind with
  | .daily =>
    row.hkAllowed cfg now s &&
    (row.executionProfile != some .fullMarket || cfg.fullMarketEnabled) &&
    dailyWindow cfg.clock cfg.provider now &&
    (s.registry.controls row.executionProfile).any (·.desiredRunning)
  | .historical =>
    row.hkAllowed cfg now s && (row.historicalDate s).any fun d => decide (expiryCutoff cfg now ≤ d)
  | .maintenance | .rerun => row.hkAllowed cfg now s

/-- `_projection_acquisition_states`. -/
def projectionAcquisitionStates (rows : List PendingRow) : List (Uuid × Bool) :=
  (rows.filter (·.relevant)).map fun row => (row.workId, row.acquisitionState cfg now s)

end Acquisition

/-! ## The page -/

section Page
variable (cfg : Config) (now : Instant) (s : Db)

def PendingRow.needsDrain (row : PendingRow) : Bool :=
  row.pendingPrepared || row.pendingRun || row.sourceErrorPending

def PendingRow.windowClosed (row : PendingRow) : Bool :=
  row.kind == .daily && !dailyWindow cfg.clock cfg.provider now && !row.needsDrain

/-- The controls of the page leave the retired ones out. -/
def PendingRow.suspended (row : PendingRow) : Bool :=
  row.kind == .daily &&
  !((s.registry.controls row.executionProfile).any fun c => c.desiredRunning && !c.retired) &&
  !row.needsDrain

def PendingRow.cooldownBlocked (row : PendingRow) : Bool :=
  s.owner.cooling now && !row.needsDrain && row.kind != .rerun

def PendingRow.runnable (row : PendingRow) : Bool :=
  row.state == .queued && decide (row.notBefore ≤ now) && !row.suspended s &&
  !row.cooldownBlocked now s && !row.windowClosed cfg now

def PendingRow.active (row : PendingRow) : Bool := s.owner.attemptId == some row.attemptId

/-- `drain_only` as shown; `states` is looked up by work. -/
def PendingRow.shownDrainOnly (states : List (Uuid × Bool)) (row : PendingRow) : Bool :=
  (row.drainOnly || ((row.hasPrepared || row.sourceErrorPending) &&
    !(states.lookup row.workId).any id)) || (s.owner.cooling now && row.needsDrain)

def PendingRow.waitReason (states : List (Uuid × Bool)) (row : PendingRow) : Option WaitReason :=
  let active := row.active s
  let runnable := row.runnable cfg now s
  let cooldown := row.cooldownBlocked now s
  if active && s.owner.needsRecovery now then some .recoveryRequired
  else if runnable && s.owner.attemptId.isSome then some .providerActive
  else if row.windowClosed cfg now && !active then some .acquisitionWindowClosed
  else if cooldown && !active then some .accountCooldown
  else if row.lastBatch.any (·.reason == some "batch_yield") && !active && runnable then
    some .batchYield
  else if now < row.notBefore then some .notBefore
  else if cooldown && !active then some .accountCooldown
  else if row.suspended s && !active then some .suspended
  else if row.shownDrainOnly now s states then some .preparedDrain
  else none

/-- One row of the page. -/
def PendingRow.show (states : List (Uuid × Bool)) (position : Option Nat) (row : PendingRow) :
    QueueRow where
  workId := row.workId
  datasetKey := row.datasetKey
  kind := row.kind
  stableKey := row.stableKey
  tradeDate := row.tradeDate
  executionProfile := row.executionProfile
  state := row.state
  queueOrder := row.queueOrder
  position := position
  active := row.active s
  attemptNumber := row.attemptNumber
  drainOnly := row.shownDrainOnly now s states
  notBefore := row.notBefore
  heartbeatAt := if row.active s then s.owner.heartbeatAt else none
  dailyRuntimeWindow :=
    if row.kind == .daily then some (dailyWindow cfg.clock cfg.provider now) else none
  lastBatch := row.lastBatch
  lastFailureCode := row.lastFailureCode <|> (row.lastBatch.bind (·.failures.head?)).join
  waitReason := row.waitReason cfg now s states

/-- The loop: `taken` positions have been given out. -/
def showRows (states : List (Uuid × Bool)) (taken : Nat) : List PendingRow → List QueueRow
  | [] => []
  | row :: rows =>
    if row.runnable cfg now s then
      row.show cfg now s states (some (taken + 1)) :: showRows states (taken + 1) rows
    else row.show cfg now s states none :: showRows states taken rows

/-- `projection(provider=..)`. -/
def projection (scheduling : Proof → Option Batch) : List QueueRow :=
  let rows := (pendingRounds s).map fun r => PendingRow.of scheduling s r.1 r.2
  showRows cfg now s (projectionAcquisitionStates cfg now s rows) 0 rows

end Page

/-! ## The second acquisition check -/

section Mirror
variable {cfg : Config} {now : Instant} {s : Db} {scheduling : Proof → Option Batch}

theorem mem_pendingRounds {work : Work} {attempt : Attempt} :
    (work, attempt) ∈ pendingRounds s ↔ attempt ∈ s.attempts ∧
      s.works.find? attempt.workId = some work ∧ attempt.state ≠ .settled ∧
      work.state ≠ .calendarClosed := by
  unfold pendingRounds
  rw [List.mem_insertionSort, List.mem_filterMap]
  constructor
  · rintro ⟨a, ha, h⟩
    obtain ⟨w, hw, h⟩ := Option.bind_eq_some_iff.mp h
    split at h
    · rename_i hc
      cases h
      simp only [Bool.and_eq_true, bne_iff_ne] at hc
      exact ⟨ha, hw, hc⟩
    · cases h
  · rintro ⟨ha, hw, hst, hcl⟩
    refine ⟨attempt, ha, ?_⟩
    simp [hw, hst, hcl]

/-- The frozen decision that `acquisition_open` asks for a daily work with a plan. -/
def frozenSkip (s : Db) (work : Work) : Bool :=
  work.kind == .daily && work.planRef.isSome && work.decision s == some .skippedCalendar

theorem hkAllowed_of (work : Work) (attempt : Attempt) :
    (PendingRow.of scheduling s work attempt).hkAllowed cfg now s = hkOpen cfg now s work := by
  change (if work.kind != .rerun && work.datasetKey == "hk_equity_eod" then
      (s.registry.datasets "hk_equity_eod").any fun dataset =>
        acquisitionAllowed cfg now dataset (if work.kind == .daily then work.tradeDate else none)
          (work.kind == .maintenance)
    else true) = hkOpen cfg now s work
  unfold hkOpen
  split
  · rename_i hc
    simp only [Bool.and_eq_true, beq_iff_eq] at hc
    rw [hc.2]
    cases s.registry.datasets "hk_equity_eod" <;> rfl
  · rfl

theorem historicalDate_of (work : Work) (attempt : Attempt) :
    (((PendingRow.of scheduling s work attempt).historicalDate s).any fun d =>
      decide (expiryCutoff cfg now ≤ d)) = historicalOpen cfg now s work := by
  have href : (if work.scope.itemId.isSome then work.scope.itemId else work.scope.legacyId) =
      work.itemRef := by
    unfold Work.itemRef
    cases work.scope.itemId <;> rfl
  change (Option.bind (Option.bind (if work.scope.itemId.isSome then work.scope.itemId
      else work.scope.legacyId) s.items.find?) fun item =>
    (s.requests.find? item.requestId).bind fun request =>
      if item.status.live && request.status.live then some item.tradeDate else none).any _ = _
  rw [href]
  unfold historicalOpen
  cases work.itemRef.bind s.items.find? with
  | none => rfl
  | some item =>
    simp only [Option.bind_some]
    cases s.requests.find? item.requestId with
    | none => rfl
    | some request =>
      simp only [Option.bind_some]
      cases item.status.live <;> cases request.status.live <;> simp

/-- `acquisition_open` is the batched check and the frozen decision. -/
theorem acquisitionOpen_eq (scheduling : Proof → Option Batch) (work : Work) (attempt : Attempt) (hw : work.state ≠ .calendarClosed) :
    acquisitionOpen cfg now s work true =
      (!frozenSkip s work && (PendingRow.of scheduling s work attempt).acquisitionState cfg now s) := by
  unfold acquisitionOpen PendingRow.acquisitionState
  rw [hkAllowed_of, historicalDate_of, if_neg (by simpa using hw)]
  cases hskip : frozenSkip s work with
  | true =>
    rw [if_pos (by simpa [frozenSkip] using hskip)]
    rfl
  | false =>
    rw [if_neg (by simp only [frozenSkip] at hskip; simp [hskip])]
    have hkind : (PendingRow.of scheduling s work attempt).kind = work.kind := rfl
    have hprofile : (PendingRow.of scheduling s work attempt).executionProfile =
        work.executionProfile := rfl
    rw [hkind, hprofile]
    cases hkOpen cfg now s work with
    | false => cases work.kind <;> rfl
    | true =>
      cases work.kind with
      | daily =>
        cases cfg.fullMarketEnabled <;> cases dailyWindow cfg.clock cfg.provider now <;>
          by_cases hp : work.executionProfile = some .fullMarket <;> simp [hp]
      | historical | maintenance | rerun => simp

theorem lookup_eq_some {κ β : Type} [BEq κ] [LawfulBEq κ] {l : List (κ × β)} {k : κ} {v : β}
    (hmem : ∃ x ∈ l, x.1 = k) (h : ∀ x ∈ l, x.1 = k → x.2 = v) : l.lookup k = some v := by
  induction l with
  | nil => obtain ⟨x, hx, _⟩ := hmem; cases hx
  | cons y rest ih =>
    obtain ⟨k', v'⟩ := y
    by_cases hk : k' = k
    · have hv : v' = v := h (k', v') List.mem_cons_self hk
      rw [hk, hv, List.lookup_cons_self]
    · rw [List.lookup_cons, beq_false_of_ne (Ne.symm hk)]
      refine ih ?_ fun x hx => h x (List.mem_cons_of_mem _ hx)
      obtain ⟨x, hx, hxk⟩ := hmem
      rcases List.mem_cons.mp hx with rfl | hx
      · exact absurd hxk hk
      · exact ⟨x, hx, hxk⟩

/-- Every round of a work is given the same answer. -/
theorem lookup_acquisitionState {work : Work} {attempt : Attempt}
    (h : (work, attempt) ∈ pendingRounds s)
    (hr : (PendingRow.of scheduling s work attempt).relevant = true) :
    (projectionAcquisitionStates cfg now s
        ((pendingRounds s).map fun r => .of scheduling s r.1 r.2)).lookup work.workId =
      some ((PendingRow.of scheduling s work attempt).acquisitionState cfg now s) := by
  unfold projectionAcquisitionStates
  refine lookup_eq_some ?_ fun x hx hk => ?_
  · refine ⟨(work.workId, _), List.mem_map.mpr ⟨.of scheduling s work attempt, ?_, rfl⟩, rfl⟩
    exact List.mem_filter.mpr ⟨List.mem_map_of_mem h, hr⟩
  · obtain ⟨row, hrow, rfl⟩ := List.mem_map.mp hx
    obtain ⟨⟨w, a⟩, hwa, rfl⟩ := List.mem_map.mp (List.mem_filter.mp hrow).1
    have hw := (mem_pendingRounds.mp h).2.1
    have hw' := (mem_pendingRounds.mp hwa).2.1
    have hsame : w = work :=
      Table.eq_of_key (Table.find?_eq_some.mp hw').1 (Table.find?_eq_some.mp hw).1 hk
    rw [hsame]
    rfl

/-- The other gates of a daily work. -/
structure DailyGatesOpen (cfg : Config) (now : Instant) (s : Db) (work : Work) : Prop where
  hk : hkOpen cfg now s work = true
  enabled : work.executionProfile = some .fullMarket → cfg.fullMarketEnabled = true
  window : dailyWindow cfg.clock cfg.provider now = true
  running : (s.registry.controls work.executionProfile).any (·.desiredRunning) = true

theorem acquisitionState_daily {work : Work} {attempt : Attempt} (hk : work.kind = .daily) :
    (PendingRow.of scheduling s work attempt).acquisitionState cfg now s = true ↔
      DailyGatesOpen cfg now s work := by
  unfold PendingRow.acquisitionState
  rw [hkAllowed_of]
  simp only [PendingRow.of, hk, Bool.and_eq_true, Bool.or_eq_true, bne_iff_ne]
  constructor
  · rintro ⟨⟨⟨h1, h2⟩, h3⟩, h4⟩
    exact ⟨h1, fun hp => h2.resolve_left fun hne => hne hp, h3, h4⟩
  · rintro ⟨h1, h2, h3, h4⟩
    refine ⟨⟨⟨h1, ?_⟩, h3⟩, h4⟩
    by_cases hp : work.executionProfile = some .fullMarket
    · exact Or.inr (h2 hp)
    · exact Or.inl hp

/-- Day 39 of a plan whose source has failed for member A: the work waits in the queue
with the error pending. -/
def eodSourceError : List Op :=
  let identity : FenceIdentity := ⟨1, 1, 7⟩
  [.enqueue (40 * day) (1, 2) ["us_equity_eod"]
      ⟨.daily .pilot "us_equity_eod" 39, .daily, "us_equity_eod", some 39, some .pilot, Scope.empty,
        none⟩,
    .claim (40 * day) (40 * day) 7 (hostClaim false),
    .mutate (40 * day) ["us_equity_eod"] identity (.manifest (some eodManifest)),
    .mutate (40 * day) ["us_equity_eod"] identity .close,
    .mutate (40 * day) ["us_equity_eod"] identity
      (.settle ⟨.retry, { Proof.empty with pendingSourceErrors := .keys [some "A"] },
        some ⟨40 * day + second, true⟩, none⟩ 3)]

/-- The queue under a registry. -/
def sourceErrorQueue (registry : Registry) : Db :=
  after (utcConfig .twelveData) eodRegistry (eodSourceError ++ [.setRegistry registry])

end Mirror

end FinDB.ProviderWork
