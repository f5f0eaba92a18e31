import Mathlib.Logic.Relation
import FinDB.ProviderWork.Admin
import FinDB.ProviderWork.Claim
import FinDB.ProviderWork.CompleteItem

/-! # The transitions behind the operations

An operation is a sequence of the guarded writes below, so an invariant is
proved once for each of them. A `Mode` restricts what a run may do. -/
namespace FinDB.ProviderWork
open FinDB.Lib Relation

structure Mode where
  /-- A final settlement of a historical work waits for its item. -/
  strict : Prop
  /-- A repair may reopen an ended work. -/
  reopens : Prop
  /-- A new delivery key may be prepared. -/
  prepares : Prop

def Mode.free : Mode := ⟨False, True, True⟩
def Mode.strictly : Mode := ⟨True, True, True⟩
def Mode.unrepaired : Mode := ⟨False, False, True⟩
def Mode.unprepared : Mode := ⟨False, True, False⟩

/-- The round that holds the provider, with its work. -/
structure Held (s : Db) (work : Work) (attempt : Attempt) : Prop where
  owned : s.owner.attemptId = some attempt.attemptId
  mem : attempt ∈ s.attempts
  workMem : work ∈ s.works
  ofWork : attempt.workId = work.workId

theorem Fenced.held {utc : Instant} {identity : FenceIdentity} {s : Db} {work : Work}
    {attempt : Attempt} (h : Fenced utc identity s work attempt) : Held s work attempt :=
  ⟨h.owned, h.mem, h.workMem, h.ofWork⟩

/-- A work that may still gain deliveries: queued, or holding the provider. -/
def Accepting (s : Db) (workId : Uuid) : Prop :=
  (∃ work attempt, Held s work attempt ∧ work.workId = workId) ∨
  ∃ work ∈ s.works, work.workId = workId ∧ work.state = .queued

/-- A row added to the queue for a work. -/
structure Fresh (a : Attempt) (workId : Uuid) (attemptNumber : Nat) : Prop where
  ofWork : a.workId = workId
  number : a.attemptNumber = attemptNumber
  queued : a.state = .queued
  noGeneration : a.generation = none

/-- A historical work belongs to the item its stable key names. -/
def HistoricalRow (s : Db) (w : Work) : Prop :=
  (∀ i, w.stableKey = .historical i → w.kind = .historical) ∧
  (w.kind = .historical → ∃ item ∈ s.items,
    w.stableKey = .historical item.itemId ∧ w.scope.itemId = some item.itemId)

/-- The item of a historical work is no longer to be acquired. -/
def ItemEnded (s : Db) (w : Work) : Prop :=
  w.kind = .historical → ∀ item ∈ s.items, w.stableKey = .historical item.itemId →
    item.status.live = false

/-- The item keeps its request and never becomes live. -/
def EndsItem (f : Item → Item) : Prop :=
  ∀ i, (f i).requestId = i.requestId ∧ ((f i).status = i.status ∨ (f i).status.live = false)

/-- What a final settlement has checked. -/
structure Checked (cfg : Config) (s : Db) (work : Work) (validated : Option Uuid) (r : Settlement) :
    Prop where
  final : r.outcome ≠ .retry
  prepared : (s.pendingPrepared work.workId).isEmpty = true ∨ r.manual s work.workId = true
  terminal : s.runsTerminal work.workId = true
  evidence : settleEvidence cfg s work validated r = .ok ()

inductive Trans (cfg : Config) (mode : Mode) : Db → Db → Prop where
  | enqueue {s : Db} {w : Work} {a : Attempt} {works attempts}
      (order : a.queueOrder = s.queueSeq + 1) (queued : w.state = .queued) (freshKey : ∀ x ∈ s.works, x.stableKey ≠ w.stableKey)
      (row : HistoricalRow s w) (fresh : Fresh a w.workId 1)
      (hw : s.works.insert? w = some works) (ha : s.attempts.insert? a = some attempts) :
      Trans cfg mode s { s with works, attempts, queueSeq := s.queueSeq + 1 }
  | hand {s : Db} {work : Work} {attempt : Attempt} (now : Instant) (drain : Bool) (token : Uuid)
      (host : String) (idle : s.owner.attemptId = none) (mem : attempt ∈ s.attempts)
      (workMem : work ∈ s.works) (ofWork : attempt.workId = work.workId)
      (queued : work.state = .queued) (attemptQueued : attempt.state = .queued) :
      Trans cfg mode s (s.hand work attempt .opened (some now) drain token
        (s.owner.rotated attempt.attemptId token now host))
  | resume {s : Db} {work : Work} {attempt : Attempt} (now : Instant) (drain : Bool) (token : Uuid)
      (host : String) (held : Held s work attempt) (keeps : attempt.drainOnly = true → drain = true) :
      Trans cfg mode s (s.hand work attempt
        (if attempt.state == .recoveryBlocked then .opened else attempt.state) attempt.startedAt
        drain token (s.owner.rotated attempt.attemptId token now host))
  | block {s : Db} {work : Work} {attempt : Attempt} (held : Held s work attempt) :
      Trans cfg mode s (s.block work attempt)
  | touch {s : Db} (o : Owner) (sameAttempt : o.attemptId = s.owner.attemptId)
      (sameGeneration : o.generation = s.owner.generation) (sameToken : o.token = s.owner.token) :
      Trans cfg mode s { s with owner := o }
  | freeze {s : Db} {work : Work} (m : Manifest) (workMem : work ∈ s.works)
      (accepting : Accepting s work.workId) (unfrozen : work.manifest = none) :
      Trans cfg mode s (s.setWork work.workId ({ · with manifest := some m }))
  | prepare {s : Db} {work : Work} {attempt : Attempt} {p : Prepared} {prepared} (utc : Instant)
      (may : mode.prepares) (held : Held s work attempt) (ofWork : p.workId = work.workId)
      (opened : attempt.state = .opened) (acquires : attempt.drainOnly = false)
      (allowed : acquisitionOpen cfg utc s work false = true ∨
        s.acceptedAs work.workId p.deliveryKey p.descriptor.payloadSha256 = true)
      (hp : s.prepared.insert? p = some prepared) :
      Trans cfg mode s { s with prepared }
  | confirm {s : Db} (workId : Uuid) (deliveryKey : String) :
      Trans cfg mode s (confirmPrepared workId deliveryKey s)
  | receipt {s : Db} {r : Receipt} {receipts} (accepting : Accepting s r.workId)
      (hr : s.receipts.insert? r = some receipts) :
      Trans cfg mode s { s with receipts }
  | close {s : Db} {work : Work} {attempt : Attempt} (held : Held s work attempt)
      (opened : attempt.state = .opened) :
      Trans cfg mode s (s.setAttempt attempt.attemptId ({ · with state := .closed }))
  | drain {s : Db} {work : Work} {attempt : Attempt} (held : Held s work attempt)
      (closed : attempt.state = .closed ∨ attempt.state = .draining) :
      Trans cfg mode s (s.setAttempt attempt.attemptId ({ · with state := .draining }))
  | retry {s : Db} {work : Work} {attempt a : Attempt} {attempts} (utc : Instant) (r : Settlement)
      (order : a.queueOrder = s.queueSeq + 1) (held : Held s work attempt)
      (closed : attempt.state = .closed ∨ attempt.state = .draining)
      (isRetry : r.outcome = .retry) (fresh : Fresh a work.workId (attempt.attemptNumber + 1))
      (ha : (s.requeue attempt utc r).attempts.insert? a = some attempts) :
      Trans cfg mode s { s.requeue attempt utc r with attempts, queueSeq := s.queueSeq + 1 }.release
  | finish {s : Db} {work : Work} {attempt : Attempt} (utc : Instant) (r : Settlement)
      (validated : Option Uuid) (held : Held s work attempt)
      (closed : attempt.state = .closed ∨ attempt.state = .draining)
      (checked : Checked cfg s work validated r) (domain : mode.strict → ItemEnded s work) :
      Trans cfg mode s (s.finish attempt utc r)
  | cancelQueued {s : Db} {work : Work} (now : Instant) (workMem : work ∈ s.works)
      (queued : work.state = .queued) (kept : s.retained work.workId = false)
      (ended : ItemEnded s work) :
      Trans cfg mode s { s.setWork work.workId
          ({ · with state := .cancelled, completedAt := some now }) with
        attempts := s.attempts.update (queuedOf work.workId)
          ({ · with state := .settled, outcome := some .cancelled, settledAt := some now }) }
  | drainQueued {s : Db} (workId : Uuid) :
      Trans cfg mode s { s with
        attempts := s.attempts.update (queuedOf workId) ({ · with drainOnly := true }) }
  | reopen {s : Db} {work : Work} {a : Attempt} {attempts}
      (order : a.queueOrder = s.queueSeq + 1) (workMem : work ∈ s.works)
      (allowed : mode.reopens) (daily : work.kind = .daily)
      (ended : work.state = .failed ∨ work.state = .partly)
      (fresh : Fresh a work.workId (lastNumber s work.workId + 1))
      (ha : s.attempts.insert? a = some attempts) :
      Trans cfg mode s ({ s with attempts, queueSeq := s.queueSeq + 1 }.setWork work.workId
        ({ · with state := .queued, completedAt := none }))
  | calendarClose {s : Db} {work : Work} (utc : Instant) (workMem : work ∈ s.works)
      (daily : work.kind = .daily)
      (unresolved : work.state = .queued ∨ work.state = .partly ∨ work.state = .failed) :
      Trans cfg mode s (s.setWork work.workId
        ({ · with state := .calendarClosed, completedAt := some utc }))
  | audit {s : Db} (repairs : Table Repair.repairId) (closures : Table Closure.workId) :
      Trans cfg mode s { s with repairs, closures }
  | request {s : Db} {q : Request} {requests} (hq : s.requests.insert? q = some requests) :
      Trans cfg mode s { s with requests }
  | item {s : Db} {i : Item} {items} (notRunning : i.status ≠ .running)
      (parent : ∃ q ∈ s.requests, q.requestId = i.requestId ∧
        (i.status.live = true → q.status.live = true))
      (hi : s.items.insert? i = some items) :
      Trans cfg mode s { s with items }
  | endItem {s : Db} (itemId : Uuid) (f : Item → Item) (hf : ∀ r, (f r).itemId = r.itemId)
      (ends : EndsItem f) :
      Trans cfg mode s (s.setItem itemId f hf)
  | startItem {s : Db} {work : Work} {attempt : Attempt} {i : Item} {q : Request} (now : Instant)
      (held : Held s work attempt) (mem : i ∈ s.items)
      (ofWork : work.itemRef = some i.itemId) (historical : work.kind = .historical)
      (requestMem : q ∈ s.requests) (ofRequest : q.requestId = i.requestId)
      (live : q.status.live = true) :
      Trans cfg mode s (s.startItem i now)
  | endRequest {s : Db} (requestId : Uuid) (f : Request → Request)
      (hf : ∀ r, (f r).requestId = r.requestId) (ended : ∀ r, (f r).status.live = false)
      (noneLive : ∀ i ∈ s.items, i.requestId = requestId → i.status.live = false)
      (live : ∀ q ∈ s.requests, q.requestId = requestId → q.status.live = true) :
      Trans cfg mode s (s.setRequest requestId f hf)

/-- Any finite sequence of transitions. -/
def Transs (cfg : Config) (mode : Mode) : Db → Db → Prop := ReflTransGen (Trans cfg mode)

theorem Trans.single {cfg : Config} {mode : Mode} {s t : Db} (h : Trans cfg mode s t) :
    Transs cfg mode s t := ReflTransGen.single h

/-- The writes of other services: nothing but registry rows and appended facts. -/
structure Env (s t : Db) : Prop where
  works : t.works = s.works
  attempts : t.attempts = s.attempts
  queueSeq : t.queueSeq = s.queueSeq
  owner : t.owner = s.owner
  prepared : t.prepared = s.prepared
  receipts : t.receipts = s.receipts
  requests : t.requests = s.requests
  items : t.items = s.items
  evidence : ∃ more, t.evidence = s.evidence ++ more
  issues : ∃ more, t.issues = s.issues ++ more
  noData : ∃ more, t.noData = s.noData ++ more

theorem Env.refl (s : Db) : Env s s :=
  ⟨rfl, rfl, rfl, rfl, rfl, rfl, rfl, rfl, ⟨[], by simp⟩, ⟨[], by simp⟩, ⟨[], by simp⟩⟩

/-- Every item has its request, and no live item is left behind by an ended one. -/
structure RequestsEnded (s : Db) : Prop where
  parent : ∀ i ∈ s.items, ∃ q ∈ s.requests, q.requestId = i.requestId
  ended : ∀ q ∈ s.requests, q.status.live = false → ∀ i ∈ s.items, i.requestId = q.requestId →
    i.status.live = false

/-! ## What every transition keeps of a work -/

/-- The columns no operation rewrites. -/
structure SameIdentity (w w' : Work) : Prop where
  workId : w'.workId = w.workId
  stableKey : w'.stableKey = w.stableKey
  kind : w'.kind = w.kind
  datasetKey : w'.datasetKey = w.datasetKey
  tradeDate : w'.tradeDate = w.tradeDate
  scope : w'.scope = w.scope

theorem SameIdentity.refl (w : Work) : SameIdentity w w := ⟨rfl, rfl, rfl, rfl, rfl, rfl⟩

theorem SameIdentity.trans {u v w : Work} (h : SameIdentity u v) (h' : SameIdentity v w) :
    SameIdentity u w :=
  ⟨h'.workId.trans h.workId, h'.stableKey.trans h.stableKey, h'.kind.trans h.kind,
    h'.datasetKey.trans h.datasetKey, h'.tradeDate.trans h.tradeDate, h'.scope.trans h.scope⟩

/-- Every work of `s` is still in `t`. -/
def KeepsWorks (s t : Db) : Prop := ∀ w ∈ s.works, ∃ w' ∈ t.works, SameIdentity w w'

theorem KeepsWorks.refl (s : Db) : KeepsWorks s s := fun w hw => ⟨w, hw, .refl w⟩

theorem KeepsWorks.trans {s t u : Db} (h : KeepsWorks s t) (h' : KeepsWorks t u) :
    KeepsWorks s u := by
  intro w hw
  obtain ⟨w', hw', hid⟩ := h w hw
  obtain ⟨w'', hw'', hid'⟩ := h' w' hw'
  exact ⟨w'', hw'', hid.trans hid'⟩

/-- The row of a kept id is the kept row. -/
theorem KeepsWorks.row {s t : Db} (h : KeepsWorks s t) {w w' : Work} (hw : w ∈ s.works)
    (hw' : w' ∈ t.works) (hid : w'.workId = w.workId) : SameIdentity w w' := by
  obtain ⟨v, hv, hs⟩ := h w hw
  rw [Table.eq_of_key hw' hv (hid.trans hs.workId.symm)]
  exact hs

theorem keepsWorks_modify {s : Db} {works : Table Work.workId} {workId : Uuid} {f : Work → Work}
    (keeps : ∀ w, SameIdentity w (f w))
    (hworks : works = s.works.modify workId f fun w => (keeps w).workId) :
    ∀ w ∈ s.works, ∃ w' ∈ works, SameIdentity w w' := by
  intro w hw
  rw [hworks]
  by_cases hk : w.workId = workId
  · exact ⟨f w, Table.mem_modify.mpr (Or.inr ⟨w, hw, hk, rfl⟩), keeps w⟩
  · exact ⟨w, Table.mem_modify.mpr (Or.inl ⟨hw, hk⟩), .refl w⟩

theorem trans_keepsWorks {cfg : Config} {mode : Mode} {s t : Db} (h : Trans cfg mode s t) :
    KeepsWorks s t := by
  have same : ∀ w : Work, SameIdentity w w := .refl
  cases h with
  | enqueue _ _ _ _ _ hw _ =>
    exact fun w hmem => ⟨w, (Table.mem_insert? hw).mpr (Or.inl hmem), same w⟩
  | hand | resume | block | freeze | retry | finish | cancelQueued | reopen | calendarClose =>
    exact keepsWorks_modify (by intro w; exact ⟨rfl, rfl, rfl, rfl, rfl, rfl⟩) rfl
  | _ => exact .refl s

theorem transs_keepsWorks {cfg : Config} {mode : Mode} {s t : Db} (h : Transs cfg mode s t) :
    KeepsWorks s t := by
  induction h with
  | refl => exact .refl s
  | tail _ ht ih => exact ih.trans (trans_keepsWorks ht)

end FinDB.ProviderWork
