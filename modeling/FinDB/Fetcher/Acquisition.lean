import Mathlib.Data.List.MinMax
import FinDB.Fetcher.Ledger

/-! # The acquisition governor

An operation takes the lock of its account, turns every intent that a crash left
armed into unknown debt, arms an intent of its own before the provider is asked, and
charges the windows of its start when it ends. No call to the provider runs inside a
transaction. -/
namespace FinDB.Fetcher
open FinDB.Lib

/-- The settings of an `Acquisition`. -/
structure Operation where
  operationId : Uuid
  provider : Provider
  account : Account
  kind : OperationKind
  requestsPerDay : Option Nat
  requestsPerMinute : Option Nat
  interval : Nat
  bound : Nat
deriving DecidableEq, Repr

/-- A cleanup asks for nothing and is free. -/
def OperationKind.units : OperationKind → Nat
  | .cleanup => 0
  | _ => 1

def OperationKind.loginUnits : OperationKind → Nat
  | .sdkLogin => 1
  | _ => 0

/-- The two windows of an instant with their limits. -/
def Operation.limits (op : Operation) (now : Instant) : List (Window × Option Nat) :=
  [((windows now).1, op.requestsPerDay), ((windows now).2, op.requestsPerMinute)]

def clockMovedBackwards : QuotaBlocked := ⟨"account clock moved backwards", false⟩

def Ledger.setIntent (l : Ledger) (operationId : Uuid) (f : Intent → Intent)
    (hf : ∀ i, (f i).operationId = i.operationId := by intro _; rfl) : Ledger :=
  { l with intents := l.intents.modify operationId f hf }

/-! ## Recovery -/

/-- An intent becomes debt that may lie anywhere between its arming and now. -/
def Intent.lapse (now : Instant) (i : Intent) : Intent :=
  { i with status := .unknown, completedAt := some now }

theorem Intent.lapse_id (now : Instant) (i : Intent) :
    (i.lapse now).operationId = i.operationId := rfl

/-- The floor a recovered intent leaves. -/
def recoveryFloor (op : Operation) (now : Instant) (l : Ledger) (i : Intent) : Ledger :=
  l.recordFloor op.account (now + max i.cooldownBound op.interval) .unknownRecovery

def recoverIntent (op : Operation) (now : Instant) (l : Ledger) (i : Intent) :
    Except QuotaBlocked Ledger := do
  ensure (decide (i.armedAt ≤ now)) clockMovedBackwards
  return recoveryFloor op now (l.setIntent i.operationId (·.lapse now) (Intent.lapse_id now)) i

/-- The intents of an account in a status. -/
def Ledger.intentsOf (l : Ledger) (account : Account) (status : IntentStatus) : List Intent :=
  l.intents.rows.filter fun i => i.account == account && i.status == status

/-- `recover`. -/
def recover (op : Operation) (now : Instant) (l : Ledger) : Except QuotaBlocked Ledger :=
  (l.intentsOf op.account .armed).foldlM (recoverIntent op now) l

/-! ## Arming -/

/-- An unknown operation may have started in the window. -/
def Intent.overlaps (i : Intent) (w : Window) : Bool :=
  decide (i.armedAt < w.start + w.width) && i.completedAt.any fun t => decide (w.start ≤ t)

/-- What unknown operations may have cost a window. -/
def Ledger.liability (l : Ledger) (account : Account) (w : Window) : Nat :=
  (((l.intentsOf account .unknown).filter (·.overlaps w)).map (·.requestUnits)).sum

/-- How long the account is closed. -/
def Operation.wait (op : Operation) (now : Instant) (l : Ledger) : Nat :=
  if op.kind == .cleanup then 0 else max (l.nextAt op.account) (l.blockedUntil op.account) - now

/-- The floor that is no mere pacing. -/
def Ledger.cooldownUntil (l : Ledger) (account : Account) : Instant :=
  max (l.blockedUntil account)
    ((l.cooldown.find? account).elim 0 fun c => if c.reason != .pacing then c.notBefore else 0)

/-- A window has room for the operation. -/
def Operation.fits (op : Operation) (l : Ledger) (w : Window) (limit : Option Nat) : Bool :=
  limit.all fun n => op.kind.units == 0 ||
    decide (l.used op.account w + l.liability op.account w + op.kind.units ≤ n)

/-- A login row of the account that lies in the future. -/
def Intent.ahead (i : Intent) (now : Instant) : Bool :=
  i.actualStart.any (fun t => decide (now < t)) || decide (now < i.armedAt) ||
  i.completedAt.any fun t => decide (now < t)

/-- A login that counts within the last day. -/
def Intent.recentLogin (i : Intent) (now : Instant) : Bool :=
  i.actualStart.any (fun t => decide (now < t + day)) ||
  (i.status == .unknown && i.actualStart.isNone && decide (i.armedAt ≤ now) &&
    i.completedAt.any fun t => decide (now < t + day))

/-- The last sample of the account that counted connections. -/
def Ledger.latestUsage (l : Ledger) (account : Account) : Option Usage :=
  (l.usage.rows.filter fun u => u.connections.isSome &&
    (l.intents.find? u.operationId).any (·.account == account)).argmax (·.observedAt)

def sdkSampleSeconds : Nat := 5 * second

/-- Five connections were open a moment ago. -/
def Usage.atCapacity (u : Usage) (now : Instant) : Bool :=
  decide (u.observedAt ≤ now) && decide (now < u.observedAt + sdkSampleSeconds) &&
  u.connections.any (5 ≤ ·)

/-- `_check_login`. -/
def checkLogin (op : Operation) (now : Instant) (l : Ledger) : Except QuotaBlocked Unit := do
  let rows := l.intents.rows.filter (·.account == op.account)
  ensure (!rows.any fun i => i.loginUnits == 1 && i.ahead now) ⟨"login clock moved backwards", false⟩
  let used : Nat := ((rows.filter fun i =>
    i.operationId != op.operationId && i.recentLogin now).map (·.loginUnits)).sum
  ensure (decide (used + 1 ≤ 1000)) ⟨"SDK login rolling 24h quota exhausted", true⟩
  ensure (!(l.latestUsage op.account).any (·.atCapacity now))
    ⟨"SDK current connection limit reached", true⟩

/-- What an armed operation remembers. -/
structure Prepared where
  windows : Window × Window
  requestsBefore : Nat
deriving DecidableEq, Repr

/-- The intent of an operation, as it is first armed. -/
def Operation.intent (op : Operation) (now : Instant) : Intent where
  operationId := op.operationId
  account := op.account
  provider := op.provider
  armedAt := now
  status := .armed
  cooldownBound := op.bound
  actualStart := none
  completedAt := none
  operationKind := op.kind
  requestUnits := op.kind.units
  loginUnits := op.kind.loginUnits
  outcome := .unknown

/-- `ON CONFLICT DO UPDATE SET armed_at .. WHERE status='armed'`. -/
def Intent.rearm (now : Instant) (i : Intent) : Intent :=
  { i with armedAt := if i.status == .armed then now else i.armedAt }

theorem Intent.rearm_id (now : Instant) (i : Intent) :
    (i.rearm now).operationId = i.operationId := rfl

def Ledger.arm (l : Ledger) (op : Operation) (now : Instant) : Ledger :=
  { l with intents := l.intents.upsert (op.intent now) (·.rearm now) (Intent.rearm_id now) }

theorem Ledger.find?_arm (l : Ledger) (op : Operation) (now : Instant) (k : Uuid) :
    (l.arm op now).intents.find? k =
      if op.operationId = k then some ((l.intents.find? k).elim (op.intent now) (·.rearm now))
      else l.intents.find? k := by
  unfold arm
  exact Table.find?_upsert

theorem mem_arm {l : Ledger} {op : Operation} {now : Instant} {i : Intent}
    (h : i ∈ (l.arm op now).intents) :
    (i ∈ l.intents ∧ i.operationId ≠ op.operationId) ∨ i = op.intent now ∨
      ∃ q ∈ l.intents, q.operationId = op.operationId ∧ i = q.rearm now := by
  have hfind := Table.mem_iff_find?.mp h
  rw [Ledger.find?_arm] at hfind
  split at hfind
  · rename_i hid
    cases hq : l.intents.find? i.operationId with
    | none =>
      rw [hq] at hfind
      exact Or.inr (Or.inl (Option.some.inj hfind).symm)
    | some q =>
      rw [hq] at hfind
      obtain ⟨hmem, hkey⟩ := Table.find?_eq_some.mp hq
      exact Or.inr (Or.inr ⟨q, hmem, hkey.trans hid.symm, (Option.some.inj hfind).symm⟩)
  · rename_i hid
    exact Or.inl ⟨(Table.find?_eq_some.mp hfind).1, fun he => hid he.symm⟩

/-- The checks of an open account. -/
def prepareChecked (op : Operation) (now : Instant) (l : Ledger) :
    Except QuotaBlocked (Ledger × Prepared) := do
  ensure ((op.limits now).all fun w => op.fits l w.1 w.2) quotaExhausted
  if op.kind.loginUnits != 0 then checkLogin op now l
  return (l.arm op now, ⟨windows now, l.used op.account (windows now).1⟩)

/-- The transaction of `prepare`: a closed account writes nothing. -/
def prepareTurn (op : Operation) (now : Instant) (l : Ledger) :
    Except QuotaBlocked (Ledger × Option Prepared) :=
  if op.wait now l = 0 then (prepareChecked op now l).map fun r => (r.1, some r.2)
  else .ok (l, none)

/-- One turn of the loop of `prepare`; `none` sleeps and tries again. `publishes`
says whether a provider work of this process takes the cooldown over. -/
def prepare (op : Operation) (now : Instant) (publishes : Bool) (l : Ledger) :
    Except (Raised QuotaBlocked Ledger) (Ledger × Option Prepared) := do
  let r ← plain (prepareTurn op now l)
  ensureOrKeep
    (!(op.kind != .cleanup && decide (now < l.cooldownUntil op.account) && publishes))
    ⟨"durable provider account cooldown is pending", true⟩ r.1
  return r

/-! ## The end -/

/-- The start is charged to its windows. -/
def Ledger.chargeStart (l : Ledger) (op : Operation) (started : Instant) : Ledger :=
  if op.kind.units = 0 then l
  else (l.charge op.account (windows started).1 op.kind.units 0).charge op.account
    (windows started).2 op.kind.units 0

theorem Ledger.chargeStart_intents (l : Ledger) (op : Operation) (started : Instant) :
    (l.chargeStart op started).intents = l.intents := by
  unfold chargeStart
  split <;> rfl

/-- An operation that has not started is cancelled. -/
def Intent.cancel (completed : Instant) (i : Intent) : Intent :=
  { i with
    status := .cancelled
    actualStart := none
    completedAt := some completed
    outcome := .cancelled }

/-- An operation that has started is charged. -/
def Intent.settle (started completed : Instant) (outcome : Outcome) (i : Intent) : Intent :=
  { i with
    status := .finalized
    actualStart := some started
    completedAt := some completed
    outcome := outcome }

theorem Intent.cancel_id (completed : Instant) (i : Intent) :
    (i.cancel completed).operationId = i.operationId := rfl

theorem Intent.settle_id (started completed : Instant) (outcome : Outcome) (i : Intent) :
    (i.settle started completed outcome).operationId = i.operationId := rfl

/-- `finalize`. -/
def finalize (op : Operation) (startedAt : Option Instant) (possiblyStarted : Bool)
    (outcome : Outcome) (completed : Instant) (l : Ledger) : Except QuotaBlocked Ledger :=
  if !(l.intents.find? op.operationId).any (·.status == .armed) then .ok l
  else match startedAt with
    | none =>
      if possiblyStarted then
        .ok ((l.recordFloor op.account (completed + op.bound) .unknownDispatch).setIntent
          op.operationId (·.lapse completed) (Intent.lapse_id completed))
      else
        .ok (l.setIntent op.operationId (·.cancel completed) (Intent.cancel_id completed))
    | some started => do
      ensure (decide (started ≤ completed)) clockMovedBackwards
      return ((l.chargeStart op started).recordFloor op.account (completed + op.interval)
        .pacing).setIntent op.operationId (·.settle started completed outcome)
          (Intent.settle_id started completed outcome)

/-! ## What each of them does -/

section Specs
variable {op : Operation} {now : Instant} {l l' : Ledger}

/-- Intents that lapse together. -/
def Ledger.lapseAll (l : Ledger) (p : Intent → Bool) (now : Instant) : Ledger :=
  { l with intents := l.intents.update p (·.lapse now) (Intent.lapse_id now) }

theorem lapse_cons (l : Ledger) (i : Intent) (rest : List Intent) :
    (l.intents.modify i.operationId (·.lapse now) (Intent.lapse_id now)).update
        (fun j => rest.any (·.operationId == j.operationId)) (·.lapse now) (Intent.lapse_id now) =
      l.intents.update (fun j => (i :: rest).any (·.operationId == j.operationId))
        (·.lapse now) (Intent.lapse_id now) := by
  apply Table.ext_rows
  simp only [Table.modify, Table.update, List.map_map, Function.comp_def, List.any_cons]
  apply List.map_congr_left
  intro j _
  by_cases hj : j.operationId = i.operationId
  · simp [hj, Intent.lapse]
  · have hji : ¬ i.operationId = j.operationId := fun he => hj he.symm
    simp [hj, hji]

/-- Recovering rows one by one lapses all of them and leaves all their floors. -/
theorem recover_fold (rows : List Intent) (l : Ledger)
    (h : rows.all (fun i => decide (i.armedAt ≤ now)) = true) :
    rows.foldlM (recoverIntent op now) l = .ok (rows.foldl (recoveryFloor op now)
      (l.lapseAll (fun j => rows.any (·.operationId == j.operationId)) now)) := by
  induction rows generalizing l with
  | nil =>
    have hsame : l.lapseAll (fun j => ([] : List Intent).any (·.operationId == j.operationId)) now =
        l := by
      have hrows : l.intents.update
          (fun j => ([] : List Intent).any (·.operationId == j.operationId)) (·.lapse now)
            (Intent.lapse_id now) = l.intents := by
        apply Table.ext_rows
        simp [Table.update]
      unfold Ledger.lapseAll
      rw [hrows]
    rw [hsame]
    rfl
  | cons i rest ih =>
    simp only [List.all_cons, Bool.and_eq_true] at h
    have hstep : recoverIntent op now l i =
        .ok (recoveryFloor op now (l.setIntent i.operationId (·.lapse now) (Intent.lapse_id now)) i) := by
      unfold recoverIntent ensure
      rw [h.1]
      rfl
    have hlapse : (recoveryFloor op now (l.setIntent i.operationId (·.lapse now) (Intent.lapse_id now)) i).lapseAll
          (fun j => rest.any (·.operationId == j.operationId)) now =
        recoveryFloor op now
          (l.lapseAll (fun j => (i :: rest).any (·.operationId == j.operationId)) now) i := by
      unfold Ledger.lapseAll
      rw [← lapse_cons]
      rfl
    rw [List.foldlM_cons, hstep]
    change rest.foldlM (recoverIntent op now) _ = _
    rw [ih _ h.2, hlapse]
    rfl

theorem recover_fold_error (rows : List Intent) (l : Ledger)
    (h : rows.all (fun i => decide (i.armedAt ≤ now)) = false) :
    rows.foldlM (recoverIntent op now) l = .error clockMovedBackwards := by
  induction rows generalizing l with
  | nil => cases h
  | cons i rest ih =>
    rw [List.foldlM_cons]
    unfold recoverIntent ensure
    cases hi : decide (i.armedAt ≤ now) with
    | false => rfl
    | true =>
      rw [List.all_cons, hi, Bool.true_and] at h
      exact ih _ h

/-- The armed intents of the account. -/
def Operation.recovers (op : Operation) (i : Intent) : Bool :=
  i.account == op.account && i.status == .armed

/-- `recover` in one piece. -/
theorem recover_eq (op : Operation) (now : Instant) (l : Ledger) :
    recover op now l =
      if (l.intentsOf op.account .armed).all (fun i => decide (i.armedAt ≤ now)) then
        .ok ((l.intentsOf op.account .armed).foldl (recoveryFloor op now)
          (l.lapseAll op.recovers now))
      else .error clockMovedBackwards := by
  unfold recover
  split
  · rename_i h
    rw [recover_fold _ _ h]
    have hrows : l.intents.update
        (fun j => (l.intentsOf op.account .armed).any (·.operationId == j.operationId))
          (·.lapse now) (Intent.lapse_id now) =
        l.intents.update op.recovers (·.lapse now) (Intent.lapse_id now) := by
      apply Table.ext_rows
      simp only [Table.update]
      apply List.map_congr_left
      intro j hj
      have hany : (l.intentsOf op.account .armed).any (·.operationId == j.operationId) =
          op.recovers j := by
        apply Bool.eq_iff_iff.mpr
        rw [List.any_eq_true]
        constructor
        · rintro ⟨i, hi, he⟩
          obtain ⟨hi, hp⟩ := List.mem_filter.mp hi
          rw [← Table.eq_of_key hi hj (beq_iff_eq.mp he)]
          exact hp
        · exact fun hp => ⟨j, List.mem_filter.mpr ⟨hj, hp⟩, beq_self_eq_true _⟩
      rw [hany]
    unfold Ledger.lapseAll
    rw [hrows]
  · rename_i h
    exact recover_fold_error _ _ (by simpa using h)

/-- Floors touch nothing else. -/
theorem foldl_recoveryFloor_eq (rows : List Intent) (l : Ledger) :
    rows.foldl (recoveryFloor op now) l =
      { l with
        pacing := (rows.foldl (recoveryFloor op now) l).pacing
        cooldown := (rows.foldl (recoveryFloor op now) l).cooldown } := by
  induction rows generalizing l with
  | nil => rfl
  | cons i rest ih =>
    rw [List.foldl_cons, ih]
    rfl

theorem recover_ok (h : recover op now l = .ok l') :
    l'.intents = l.intents.update op.recovers (·.lapse now) (Intent.lapse_id now) ∧
      l'.quota = l.quota := by
  rw [recover_eq] at h
  split at h
  · cases h
    rw [foldl_recoveryFloor_eq]
    exact ⟨rfl, rfl⟩
  · cases h

theorem prepareChecked_ok {p : Prepared} (h : prepareChecked op now l = .ok (l', p)) :
    (op.limits now).all (fun w => op.fits l w.1 w.2) = true ∧ l' = l.arm op now ∧
      p.windows = windows now := by
  unfold prepareChecked at h
  obtain ⟨_, hfits, h⟩ := ok_bind h
  have hpair : (l', p) = (l.arm op now, ⟨windows now, l.used op.account (windows now).1⟩) := by
    split at h
    · obtain ⟨_, _, h⟩ := ok_bind h
      exact ok_pure h
    · exact ok_pure h
  cases hpair
  exact ⟨ensure_ok.mp hfits, rfl, rfl⟩

theorem prepareTurn_cases {p : Option Prepared} (h : prepareTurn op now l = .ok (l', p)) :
    (l' = l ∧ p = none) ∨
    ∃ q, p = some q ∧ q.windows = windows now ∧ l' = l.arm op now ∧
      (op.limits now).all (fun w => op.fits l w.1 w.2) = true := by
  unfold prepareTurn at h
  split at h
  · cases hc : prepareChecked op now l with
    | error e => rw [hc] at h; cases h
    | ok r =>
      rw [hc] at h
      cases h
      obtain ⟨hfits, harm, hw⟩ := prepareChecked_ok hc
      exact Or.inr ⟨r.2, rfl, hw, harm, hfits⟩
  · cases h
    exact Or.inl ⟨rfl, rfl⟩

theorem prepare_ok {publishes : Bool} {r : Ledger × Option Prepared}
    (h : prepare op now publishes l = .ok r) : prepareTurn op now l = .ok r := by
  unfold prepare at h
  obtain ⟨r', hr, h⟩ := ok_bind h
  obtain ⟨_, _, h⟩ := ok_bind h
  rw [ok_pure h]
  exact plain_ok.mp hr

/-- A refusal keeps the ledger of its transaction, when that has ended. -/
theorem prepare_kept {publishes : Bool} {r : Raised QuotaBlocked Ledger} {k : Ledger}
    (h : prepare op now publishes l = .error r) (hk : r.kept = some k) :
    k = l ∨ k = l.arm op now := by
  unfold prepare at h
  cases hturn : prepareTurn op now l with
  | error e =>
    rw [hturn] at h
    cases h
    cases hk
  | ok turn =>
    rw [hturn] at h
    change (ensureOrKeep _ _ turn.1 >>= fun _ => _) = _ at h
    unfold ensureOrKeep at h
    split at h
    · cases h
    · cases h
      cases hk
      rcases prepareTurn_cases hturn with ⟨hsame, _⟩ | ⟨_, _, _, harm, _⟩
      · exact Or.inl hsame
      · exact Or.inr harm

/-- An armed operation ends as unknown, cancelled or charged. -/
theorem finalize_cases {startedAt : Option Instant} {possiblyStarted : Bool} {outcome : Outcome}
    (h : finalize op startedAt possiblyStarted outcome now l = .ok l') :
    l' = l ∨ (∃ i ∈ l.intents, i.operationId = op.operationId ∧ i.status = .armed) ∧
      ((startedAt = none ∧ possiblyStarted = true ∧
          l' = (l.recordFloor op.account (now + op.bound) .unknownDispatch).setIntent
            op.operationId (·.lapse now) (Intent.lapse_id now)) ∨
       (startedAt = none ∧ possiblyStarted = false ∧
          l' = l.setIntent op.operationId (·.cancel now) (Intent.cancel_id now)) ∨
       ∃ t, startedAt = some t ∧ t ≤ now ∧
          l' = ((l.chargeStart op t).recordFloor op.account (now + op.interval) .pacing).setIntent
            op.operationId (·.settle t now outcome) (Intent.settle_id t now outcome)) := by
  unfold finalize at h
  split at h
  · cases h
    exact Or.inl rfl
  · rename_i hrow
    have hrow : (l.intents.find? op.operationId).any (·.status == .armed) = true := by
      simpa using hrow
    obtain ⟨i, hfind, hst⟩ := Option.any_eq_true .. |>.mp hrow
    obtain ⟨hi, hid⟩ := Table.find?_eq_some.mp hfind
    refine Or.inr ⟨⟨i, hi, hid, beq_iff_eq.mp hst⟩, ?_⟩
    split at h
    · split at h
      · rename_i hposs
        cases h
        exact Or.inl ⟨rfl, hposs, rfl⟩
      · rename_i hposs
        cases h
        exact Or.inr (Or.inl ⟨rfl, by simpa using hposs, rfl⟩)
    · rename_i t
      obtain ⟨_, hle, h⟩ := ok_bind h
      have hle : t ≤ now := by simpa using ensure_ok.mp hle
      exact Or.inr (Or.inr ⟨t, rfl, hle, ok_pure h⟩)

end Specs

end FinDB.Fetcher
