import FinDB.Lib.Raise
import FinDB.Lib.Table
import FinDB.Vocabulary

/-! # The account ledger

Every consumer of a provider account on one host shares a SQLite ledger: what each
UTC day and minute has been charged, when the account may next be used and why, and
an intent for every operation that may have reached the provider. Times are
microseconds, so the finite-float checks of the source have nothing to refuse. -/
namespace FinDB.Fetcher
open FinDB.Lib

/-- Account names, as characters: aliases are joined and split by text. -/
abbrev Account := List Char

/-- The key of a UTC day or minute; both are ISO texts that sort by their date. -/
inductive Window where
  | day (n : Nat)
  | minute (n : Nat)
deriving DecidableEq, Repr

def Window.width : Window → Nat
  | .day _ => FinDB.day
  | .minute _ => FinDB.minute

/-- `now - now % width`, for an instant of the window. -/
def Window.start : Window → Instant
  | .day n => n * FinDB.day
  | .minute n => n * FinDB.minute

/-- The day a window sorts by. -/
def Window.date : Window → Nat
  | .day n => n
  | .minute n => n * FinDB.minute / FinDB.day

/-- `_windows`. -/
def windows (t : Instant) : Window × Window := (.day (t / day), .minute (t / minute))

/-! ## Rows -/

structure QuotaRow where
  account : Account
  window : Window
  requests : Nat
  bytes : Nat
  blockedUntil : Instant
deriving DecidableEq, Repr

def QuotaRow.key (r : QuotaRow) : Account × Window := (r.account, r.window)

/-- A row with more on it. -/
def QuotaRow.add (r : QuotaRow) (requests bytes : Nat) (blockedUntil : Instant) : QuotaRow :=
  { r with
    requests := r.requests + requests
    bytes := r.bytes + bytes
    blockedUntil := max r.blockedUntil blockedUntil }

theorem QuotaRow.key_add (requests bytes : Nat) (blockedUntil : Instant) (r : QuotaRow) :
    (r.add requests bytes blockedUntil).key = r.key := rfl

structure Pacing where
  account : Account
  nextAt : Instant
deriving DecidableEq, Repr

inductive FloorReason where
  | legacy | quotaBlock | pacing | unknownRecovery | unknownDispatch | rateLimited
deriving DecidableEq, Repr

structure Cooldown where
  account : Account
  notBefore : Instant
  reason : FloorReason
deriving DecidableEq, Repr

inductive IntentStatus where
  | armed | unknown | finalized | cancelled
deriving DecidableEq, Repr

/-- An intent that may still cost something. -/
def IntentStatus.open_ : IntentStatus → Bool
  | .armed | .unknown => true
  | .finalized | .cancelled => false

inductive OperationKind where
  | call (name : String)
  | sdkLogin
  | cleanup
deriving DecidableEq, Repr

inductive Outcome where
  | unknown | success | error | cancelled
deriving DecidableEq, Repr

structure Intent where
  operationId : Uuid
  account : Account
  provider : Provider
  armedAt : Instant
  status : IntentStatus
  cooldownBound : Nat
  actualStart : Option Instant
  completedAt : Option Instant
  operationKind : OperationKind
  requestUnits : Nat
  loginUnits : Nat
  outcome : Outcome
deriving DecidableEq, Repr

structure Usage where
  operationId : Uuid
  observedAt : Instant
  connections : Option Nat
deriving DecidableEq, Repr

def Usage.key (u : Usage) : Uuid × Instant := (u.operationId, u.observedAt)

/-- A SHA-256 digest; its hex text sorts as the number it writes. -/
abbrev Digest := Nat

structure Identity where
  provider : Provider
  credentialSha256 : Digest
  account : Account
deriving DecidableEq, Repr

def Identity.key (i : Identity) : Provider × Digest := (i.provider, i.credentialSha256)

structure AliasAudit where
  alias_ : Account
  account : Account
  originalQuota : List QuotaRow
  originalPacing : Instant
deriving DecidableEq, Repr

structure Ledger where
  identities : Table Identity.key
  quota : Table QuotaRow.key
  pacing : Table Pacing.account
  cooldown : Table Cooldown.account
  intents : Table Intent.operationId
  usage : Table Usage.key
  audit : Table AliasAudit.alias_
  /-- The accounts with a row in `full_capacity_violation`. -/
  violations : List Account
  /-- `account_ledger_retention.next_at`. -/
  retention : Option Instant

def Ledger.empty : Ledger := ⟨.empty, .empty, .empty, .empty, .empty, .empty, .empty, [], none⟩

structure QuotaBlocked where
  message : String
  quotaWait : Bool
deriving DecidableEq, Repr

def quotaExhausted : QuotaBlocked := ⟨"durable account quota is exhausted", true⟩

/-! ## Reading -/

namespace Ledger
variable (l : Ledger)

/-- The requests charged to a window. -/
def used (account : Account) (w : Window) : Nat := (l.quota.find? (account, w)).elim 0 (·.requests)

def usedBytes (account : Account) (w : Window) : Nat :=
  (l.quota.find? (account, w)).elim 0 (·.bytes)

def blocked (account : Account) (w : Window) : Instant :=
  (l.quota.find? (account, w)).elim 0 (·.blockedUntil)

/-- `MAX(blocked_until)` of an account. -/
def blockedUntil (account : Account) : Instant :=
  ((l.quota.rows.filter (·.account == account)).map (·.blockedUntil)).foldl max 0

def nextAt (account : Account) : Instant := (l.pacing.find? account).elim 0 (·.nextAt)

def notBefore (account : Account) : Instant := (l.cooldown.find? account).elim 0 (·.notBefore)

/-! ## Floors and charges -/

/-- `record_floor`: the longer debt wins, with its reason. -/
def recordFloor (account : Account) (until_ : Instant) (reason : FloorReason) : Ledger :=
  { l with
    pacing := l.pacing.upsert ⟨account, until_⟩ fun r => { r with nextAt := max r.nextAt until_ }
    cooldown := l.cooldown.upsert ⟨account, until_, reason⟩ fun r => { r with
      notBefore := max r.notBefore until_
      reason := if r.notBefore ≤ until_ then reason else r.reason } }

/-- `ON CONFLICT(account,window) DO UPDATE`: more on a window. -/
def addRow (r : QuotaRow) : Ledger :=
  { l with
    quota := l.quota.upsert r (·.add r.requests r.bytes r.blockedUntil)
      (QuotaRow.key_add r.requests r.bytes r.blockedUntil) }

/-- Add to a window, which starts at nothing. -/
def charge (account : Account) (w : Window) (requests bytes : Nat) : Ledger :=
  l.addRow ⟨account, w, requests, bytes, 0⟩

theorem find?_addRow (r : QuotaRow) (k : Account × Window) :
    (l.addRow r).quota.find? k =
      if r.key = k then
        some ((l.quota.find? k).elim r (·.add r.requests r.bytes r.blockedUntil))
      else l.quota.find? k := by
  unfold addRow
  exact Table.find?_upsert

/-- A column that a charge adds to, whoever is charged. -/
structure Counter (g : QuotaRow → Nat) : Prop where
  add : ∀ q r : QuotaRow, g (q.add r.requests r.bytes r.blockedUntil) = g q + g r
  account : ∀ (r : QuotaRow) (account : Account), g { r with account := account } = g r

theorem counter_requests : Counter (·.requests) := ⟨fun _ _ => rfl, fun _ _ => rfl⟩

theorem counter_bytes : Counter (·.bytes) := ⟨fun _ _ => rfl, fun _ _ => rfl⟩

/-- What a column says of a window. -/
def amount (g : QuotaRow → Nat) (account : Account) (w : Window) : Nat :=
  (l.quota.find? (account, w)).elim 0 g

theorem amount_addRow {g : QuotaRow → Nat} (hg : Counter g) (r : QuotaRow) (account : Account)
    (w : Window) : (l.addRow r).amount g account w =
      l.amount g account w + if r.key = (account, w) then g r else 0 := by
  unfold amount
  rw [find?_addRow]
  split
  · cases l.quota.find? (account, w) with
    | none => exact (Nat.zero_add _).symm
    | some q => exact hg.add q r
  · rfl

theorem used_charge (account : Account) (w w' : Window) (requests bytes : Nat) :
    (l.charge account w requests bytes).used account w' =
      l.used account w' + if w = w' then requests else 0 := by
  have h := l.amount_addRow counter_requests ⟨account, w, requests, bytes, 0⟩ account w'
  simp only [QuotaRow.key, Prod.mk.injEq, true_and] at h
  exact h

/-- The longer floor stands. -/
theorem nextAt_recordFloor (account : Account) (until_ : Instant) (reason : FloorReason)
    (other : Account) : (l.recordFloor account until_ reason).nextAt other =
      if account = other then max (l.nextAt other) until_ else l.nextAt other := by
  unfold nextAt recordFloor
  simp only [Table.find?_upsert]
  split
  · cases l.pacing.find? other with
    | none => exact (Nat.zero_max _).symm
    | some r => rfl
  · rfl

theorem notBefore_recordFloor (account : Account) (until_ : Instant) (reason : FloorReason)
    (other : Account) : (l.recordFloor account until_ reason).notBefore other =
      if account = other then max (l.notBefore other) until_ else l.notBefore other := by
  unfold notBefore recordFloor
  simp only [Table.find?_upsert]
  split
  · cases l.cooldown.find? other with
    | none => exact (Nat.zero_max _).symm
    | some r => rfl
  · rfl

end Ledger

/-! ## Reservations -/

/-- The arguments of `reserve_acquisition`. -/
structure Reservation where
  account : Account
  interval : Nat
  requests : Nat
  byteCount : Nat
  requestLimit : Option Nat
  byteLimit : Option Nat
  minuteLimit : Option Nat
  enforceCapacity : Bool
  allocation : Option (List Char)
  allocationRequestLimit : Nat
  allocationByteLimit : Nat
deriving DecidableEq, Repr

/-- `(wait, before, after, day)`. -/
structure Granted where
  wait : Nat
  before : Nat
  after : Nat
  daily : Window
deriving DecidableEq, Repr

def allocationAccount (account allocation : List Char) : Account :=
  account ++ ":allocation:".toList ++ allocation

def Reservation.valid (r : Reservation) : Bool :=
  r.requestLimit.all (0 < ·) && r.byteLimit.all (0 < ·) && r.minuteLimit.all (0 < ·)

/-- The daily row refuses. -/
def Reservation.dayFull (r : Reservation) (now : Instant) (l : Ledger) (daily : Window) : Bool :=
  decide (now < l.blocked r.account daily) ||
  r.requestLimit.any (fun n => decide (n < l.used r.account daily + r.requests)) ||
  r.byteLimit.any fun n => decide (n ≤ l.usedBytes r.account daily) ||
    decide (n < l.usedBytes r.account daily + r.byteCount)

/-- The minute row refuses. -/
def Reservation.minuteFull (r : Reservation) (now : Instant) (l : Ledger) (m : Window) : Bool :=
  decide (now < l.blocked r.account m) ||
  r.minuteLimit.any fun n => decide (n < l.used r.account m + r.requests)

/-- The allocation of a consumer is charged for the day. -/
def Reservation.allocate (r : Reservation) (daily : Window) (l : Ledger) :
    Except QuotaBlocked Ledger :=
  match r.allocation with
  | none => .ok l
  | some allocation => do
    let account := allocationAccount r.account allocation
    ensure (decide (l.used account daily + r.requests ≤ r.allocationRequestLimit) &&
        decide (l.usedBytes account daily + r.byteCount ≤ r.allocationByteLimit))
      ⟨"installed consumer allocation is exhausted", true⟩
    return l.charge account daily r.requests r.byteCount

/-- The charge itself. The refusal is raised after its transaction has committed the
daily charge. -/
def Reservation.spend (r : Reservation) (now : Instant) (before : Nat) (l : Ledger) :
    Except (Raised QuotaBlocked Ledger) (Ledger × Granted) := do
  let daily := (windows now).1
  let m := (windows now).2
  let l := l.charge r.account daily r.requests r.byteCount
  ensureOrKeep (!r.minuteFull now l m) quotaExhausted l
  return ((l.charge r.account m r.requests 0).recordFloor r.account (now + r.interval) .pacing,
    ⟨0, before, before + r.requests, daily⟩)

/-- The quota of an account that need not wait. -/
def Reservation.take (r : Reservation) (now : Instant) (l : Ledger) :
    Except (Raised QuotaBlocked Ledger) (Ledger × Granted) := do
  let daily := (windows now).1
  let m := (windows now).2
  let l := (l.charge r.account daily 0 0).charge r.account m 0 0
  plain (ensure (!r.dayFull now l daily) quotaExhausted)
  plain (ensure (!r.minuteFull now l m) quotaExhausted)
  let before := l.used r.account daily
  let l ← plain (r.allocate daily l)
  r.spend now before l

/-- `reserve_acquisition`. -/
def reserveAcquisition (r : Reservation) (now : Instant) (l : Ledger) :
    Except (Raised QuotaBlocked Ledger) (Ledger × Granted) := do
  plain (ensure r.valid ⟨"account limits are unknown or invalid", false⟩)
  plain (ensure (!(r.enforceCapacity && l.violations.contains r.account))
    ⟨"persistent account capacity violation; trusted correction required", false⟩)
  if now < l.nextAt r.account then
    return (l, ⟨l.nextAt r.account - now, 0, 0, (windows now).1⟩)
  else r.take now l

end FinDB.Fetcher
