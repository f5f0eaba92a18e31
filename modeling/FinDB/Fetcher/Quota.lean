import FinDB.Lib.Machine
import FinDB.Fetcher.Acquisition

/-! # Quota safety across crashes

Any number of processes take turns with the lock of one account, and any of them may
crash at any point: its intent stays armed until the next process turns it into
unknown debt. A start is charged when the operation ends, so what counts against a
window is spread over three kinds of rows. The invariant traces every request the
provider has seen to one of them. -/
namespace FinDB.Fetcher
open FinDB.Lib

/-! ## The processes -/

/-- A request the provider has seen. -/
structure Dispatch where
  operationId : Uuid
  kind : OperationKind
  startedAt : Instant
deriving DecidableEq, Repr

/-- The operation that holds the account lock, as its process remembers it. -/
structure Live where
  op : Operation
  prepared : Option Prepared
  startedAt : Option Instant
  possiblyStarted : Bool
deriving DecidableEq, Repr

/-- The ledger, the lock, the clock, and what the provider has seen. -/
structure Governor where
  ledger : Ledger
  live : Option Live
  clock : Instant
  dispatches : List Dispatch

def Governor.init : Governor := ⟨.empty, none, 0, []⟩

/-- What a process may do next; a child process speaks for the operation of its
parent, under the same lock. -/
inductive Act where
  | enter (now : Instant) (op : Operation)
  | prepare (now : Instant) (publishes : Bool)
  | confirmStart (now : Instant)
  /-- The parent lets the child start. -/
  | go
  | childStart (now : Instant)
  /-- The child has refused a stale `go`. -/
  | retry
  /-- The child has sent its actual start. -/
  | report
  | finish (now : Instant) (outcome : Outcome)
  | crash

/-- The start of an operation, if the provider has seen it. -/
def Governor.startOf (g : Governor) (operationId : Uuid) : Option Instant :=
  (g.dispatches.find? (·.operationId == operationId)).map (·.startedAt)

/-- A start must fall into the prepared windows; a cleanup may start at any time. -/
def Live.mayStart (lv : Live) (now : Instant) : Bool :=
  lv.startedAt.isNone && lv.prepared.any fun p => lv.op.kind == .cleanup || p.windows == windows now

/-- The provider is asked. -/
def Governor.dispatch (g : Governor) (lv : Live) (now : Instant) (live : Live) : Governor :=
  { g with
    live := some live
    clock := now
    dispatches := g.dispatches ++ [⟨lv.op.operationId, lv.op.kind, now⟩] }

/-- `enter`: the lock, then `recover`. -/
def Governor.enter (g : Governor) (now : Instant) (op : Operation) : Governor :=
  match g.live with
  | some _ => g
  | none =>
    match recover op now g.ledger with
    | .ok l => { g with ledger := l, live := some ⟨op, none, none, false⟩, clock := now }
    | .error _ => { g with clock := now }

/-- A turn of `prepare`; only a turn that returns leaves windows to start in. -/
def Governor.prepare (g : Governor) (lv : Live) (now : Instant) (publishes : Bool) : Governor :=
  match Fetcher.prepare lv.op now publishes g.ledger with
  | .ok (l, p) => { g with ledger := l, live := some { lv with prepared := p }, clock := now }
  | .error r =>
    { g with
      ledger := r.kept.getD g.ledger, live := some { lv with prepared := none }, clock := now }

/-- `finish`: a lock whose ledger could not be written is kept until the process ends. -/
def Governor.finish (g : Governor) (lv : Live) (now : Instant) (outcome : Outcome) : Governor :=
  match finalize lv.op lv.startedAt lv.possiblyStarted outcome now g.ledger with
  | .ok l => { g with ledger := l, live := none, clock := now }
  | .error _ => { g with clock := now }

/-- An act of the process that holds the lock. -/
def Governor.actLive (g : Governor) (lv : Live) : Act → Governor
  | .enter _ _ => g
  | .prepare now publishes =>
    if lv.startedAt.isSome || lv.possiblyStarted then g else g.prepare lv now publishes
  | .confirmStart now =>
    if lv.mayStart now && !lv.possiblyStarted && (g.startOf lv.op.operationId).isNone then
      g.dispatch lv now { lv with startedAt := some now }
    else g
  | .go =>
    if lv.startedAt.isNone && lv.prepared.isSome then
      { g with live := some { lv with possiblyStarted := true } }
    else g
  | .childStart now =>
    if lv.mayStart now && (lv.possiblyStarted || lv.op.kind == .cleanup) &&
        (g.startOf lv.op.operationId).isNone then
      g.dispatch lv now lv
    else g
  | .retry =>
    if (g.startOf lv.op.operationId).isNone then
      { g with live := some { lv with possiblyStarted := false } }
    else g
  | .report =>
    { g with live := some { lv with startedAt := g.startOf lv.op.operationId <|> lv.startedAt } }
  | .finish now outcome => g.finish lv now outcome
  | .crash => { g with live := none }

def Governor.act (act : Act) (g : Governor) : Governor :=
  match act with
  | .enter now op => g.enter now op
  | act =>
    match g.live with
    | some lv => g.actLive lv act
    | none => g

/-- One account and its published limits. -/
structure Shared where
  account : Account
  requestsPerDay : Option Nat
  requestsPerMinute : Option Nat

def Shared.limit (a : Shared) : Window → Option Nat
  | .day _ => a.requestsPerDay
  | .minute _ => a.requestsPerMinute

/-- The clock does not go back, every operation is one of the account, and an operation
id, 128 random bits, is new. -/
def Shared.admits (a : Shared) (g : Governor) : Act → Prop
  | .enter now op =>
    g.clock ≤ now ∧ op.account = a.account ∧ op.requestsPerDay = a.requestsPerDay ∧
    op.requestsPerMinute = a.requestsPerMinute ∧
    (∀ i ∈ g.ledger.intents, i.operationId ≠ op.operationId) ∧
    ∀ d ∈ g.dispatches, d.operationId ≠ op.operationId
  | .prepare now _ | .confirmStart now | .childStart now | .finish now _ => g.clock ≤ now
  | .go | .retry | .report | .crash => True

/-- The states the processes of an account can reach. -/
def Shared.Reachable (a : Shared) (g : Governor) : Prop :=
  StepsIf Governor.act a.admits Governor.init g

/-! ## Counting -/

/-- An instant of a window. -/
def Window.holds (w : Window) (t : Instant) : Bool :=
  match w with
  | .day n => t / FinDB.day == n
  | .minute n => t / FinDB.minute == n

/-- A cleanup is no request. -/
def Dispatch.counts (d : Dispatch) : Bool := d.kind != .cleanup

/-- The requests the provider has seen in a window. -/
def Governor.seen (g : Governor) (w : Window) : Nat :=
  (g.dispatches.filter fun d => d.counts && w.holds d.startedAt).length

/-- What an intent weighs in a window: its charge, once finalized, or its liability. -/
def Intent.charge (i : Intent) (account : Account) (w : Window) : Nat :=
  if i.account == account && i.status == .finalized && i.actualStart.any w.holds then
    i.requestUnits
  else 0

def Intent.debt (i : Intent) (account : Account) (w : Window) : Nat :=
  if i.account == account && i.status == .unknown && i.overlaps w then i.requestUnits else 0

theorem liability_eq_total (l : Ledger) (account : Account) (w : Window) :
    l.liability account w = l.intents.total (·.debt account w) := by
  unfold Ledger.liability Ledger.intentsOf
  rw [List.filter_filter, Table.sum_filter]
  refine Table.total_congr fun i _ => ?_
  rw [Bool.and_comm]
  rfl

theorem holds_bounds {w : Window} {t : Instant} (h : w.holds t = true) :
    w.start ≤ t ∧ t < w.start + w.width := by
  cases w with
  | day n =>
    have hn : t / FinDB.day = n := by simpa [Window.holds] using h
    have hpos : 0 < FinDB.day := by decide
    have h1 := Nat.div_mul_le_self t FinDB.day
    have h2 := Nat.lt_div_mul_add hpos (a := t)
    rw [hn] at h1 h2
    exact ⟨h1, h2⟩
  | minute n =>
    have hn : t / FinDB.minute = n := by simpa [Window.holds] using h
    have hpos : 0 < FinDB.minute := by decide
    have h1 := Nat.div_mul_le_self t FinDB.minute
    have h2 := Nat.lt_div_mul_add hpos (a := t)
    rw [hn] at h1 h2
    exact ⟨h1, h2⟩

/-- The windows of an instant are the two that hold it. -/
theorem holds_iff {w : Window} {t : Instant} :
    w.holds t = true ↔ w = (windows t).1 ∨ w = (windows t).2 := by
  cases w with
  | day n =>
    simp only [Window.holds, windows, beq_iff_eq, Window.day.injEq, reduceCtorEq, or_false]
    exact ⟨Eq.symm, Eq.symm⟩
  | minute n =>
    simp only [Window.holds, windows, beq_iff_eq, Window.minute.injEq, reduceCtorEq, false_or]
    exact ⟨Eq.symm, Eq.symm⟩

/-- Charging a start raises the windows that hold it. -/
theorem used_chargeStart (l : Ledger) (op : Operation) (started : Instant) (w : Window) :
    (l.chargeStart op started).used op.account w =
      l.used op.account w + if w.holds started then op.kind.units else 0 := by
  unfold Ledger.chargeStart
  split
  · rename_i hu
    simp [hu]
  · rw [Ledger.used_charge, Ledger.used_charge]
    by_cases hw : w.holds started = true
    · rw [if_pos hw]
      rcases holds_iff.mp hw with rfl | rfl
      · rw [if_pos rfl, if_neg (by simp [windows])]
        rfl
      · rw [if_neg (by simp [windows]), if_pos rfl]
        rfl
    · rw [if_neg hw, if_neg fun he => hw (holds_iff.mpr (Or.inl he.symm)),
        if_neg fun he => hw (holds_iff.mpr (Or.inr he.symm))]

/-! ## The invariant -/

/-- The row that answers for a request of the account: still armed, unknown over an
interval that holds the start, or charged. -/
structure Traces (a : Shared) (i : Intent) (d : Dispatch) : Prop where
  operationId : i.operationId = d.operationId
  account : i.account = a.account
  units : i.requestUnits = 1
  armed : i.armedAt ≤ d.startedAt
  status : i.status = .armed ∨ (i.status = .unknown ∧ ∃ c, i.completedAt = some c ∧ d.startedAt ≤ c) ∨
    (i.status = .finalized ∧ i.actualStart = some d.startedAt)

/-- What holds of the process with the lock. -/
structure Holds (a : Shared) (g : Governor) (lv : Live) : Prop where
  account : lv.op.account = a.account
  perDay : lv.op.requestsPerDay = a.requestsPerDay
  perMinute : lv.op.requestsPerMinute = a.requestsPerMinute
  /-- No other operation of the account is armed. -/
  alone : ∀ i ∈ g.ledger.intents, i.account = a.account → i.status = .armed →
    i.operationId = lv.op.operationId
  own : ∀ i ∈ g.ledger.intents, i.operationId = lv.op.operationId →
    i.account = a.account ∧ i.status = .armed ∧ i.requestUnits = lv.op.kind.units ∧
      i.armedAt ≤ g.clock
  armed : lv.prepared.isSome = true → ∃ i ∈ g.ledger.intents, i.operationId = lv.op.operationId
  /-- The windows it may start in have room for it. -/
  room : ∀ p, lv.prepared = some p → lv.op.kind ≠ .cleanup → ∀ w, w = p.windows.1 ∨ w = p.windows.2 →
    ∀ n, a.limit w = some n → g.ledger.used a.account w + g.ledger.liability a.account w + 1 ≤ n
  kind : ∀ d ∈ g.dispatches, d.operationId = lv.op.operationId → d.kind = lv.op.kind
  flagged : ∀ d ∈ g.dispatches, d.operationId = lv.op.operationId → d.counts = true →
    lv.startedAt.isSome = true ∨ lv.possiblyStarted = true
  started : ∀ t, lv.startedAt = some t →
    ∃ d ∈ g.dispatches, d.operationId = lv.op.operationId ∧ d.startedAt = t

structure Safe (a : Shared) (g : Governor) : Prop where
  ids : (g.dispatches.map (·.operationId)).Nodup
  past : ∀ d ∈ g.dispatches, d.startedAt ≤ g.clock
  traced : ∀ d ∈ g.dispatches, d.counts = true → ∃ i ∈ g.ledger.intents, Traces a i d
  charged : ∀ w, g.ledger.intents.total (·.charge a.account w) ≤ g.ledger.used a.account w
  live : ∀ lv, g.live = some lv → Holds a g lv
  limit : ∀ w n, a.limit w = some n → g.seen w ≤ n

variable {a : Shared} {g : Governor} {lv : Live} {now : Instant}

theorem Safe.unique (h : Safe a g) {d e : Dispatch} (hd : d ∈ g.dispatches) (he : e ∈ g.dispatches)
    (hid : d.operationId = e.operationId) : d = e := List.inj_on_of_nodup_map h.ids hd he hid

/-- A request the account's rows answer for weighs on its window. -/
theorem Traces.weight {i : Intent} {d : Dispatch} {w : Window} (h : Traces a i d)
    (hne : i.status ≠ .armed) (hw : w.holds d.startedAt = true) :
    1 ≤ i.charge a.account w + i.debt a.account w := by
  obtain ⟨hlow, hhigh⟩ := holds_bounds hw
  rcases h.status with hs | ⟨hs, c, hc, hle⟩ | ⟨hs, hstart⟩
  · exact absurd hs hne
  · have hover : i.overlaps w = true := by
      simp only [Intent.overlaps, hc, Option.any_some, Bool.and_eq_true, decide_eq_true_eq]
      exact ⟨lt_of_le_of_lt h.armed hhigh, le_trans hlow hle⟩
    simp [Intent.debt, h.account, hs, hover, h.units]
  · have hcharge : i.charge a.account w = 1 := by
      simp [Intent.charge, h.account, hs, hstart, hw, h.units]
    omega

/-- **What the check sees.** While the process with the lock has not started, every
request of a window is charged to it or counted as its liability. -/
theorem Safe.seen_le (h : Safe a g) (hlive : g.live = some lv)
    (hnot : ∀ d ∈ g.dispatches, d.operationId ≠ lv.op.operationId) (w : Window) :
    g.seen w ≤ g.ledger.used a.account w + g.ledger.liability a.account w := by
  have hholds := h.live lv hlive
  have hnodup : ((g.dispatches.filter fun d => d.counts && w.holds d.startedAt).map
      (·.operationId)).Nodup := h.ids.sublist (List.filter_sublist.map _)
  have hle : ((g.dispatches.filter fun d => d.counts && w.holds d.startedAt).map
      (·.operationId)).length ≤
      g.ledger.intents.total fun i => i.charge a.account w + i.debt a.account w := by
    refine Table.length_le_total hnodup fun k hk => ?_
    obtain ⟨d, hd, rfl⟩ := List.mem_map.mp hk
    obtain ⟨hd, hp⟩ := List.mem_filter.mp hd
    obtain ⟨hcounts, hw⟩ := Bool.and_eq_true_iff.mp hp
    obtain ⟨i, hi, htrace⟩ := h.traced d hd hcounts
    have hne : i.status ≠ .armed := by
      intro hs
      refine hnot d hd ?_
      rw [← htrace.operationId]
      exact hholds.alone i hi htrace.account hs
    exact ⟨i, hi, htrace.operationId, htrace.weight hne hw⟩
  rw [List.length_map] at hle
  have hsplit : (g.ledger.intents.total fun i => i.charge a.account w + i.debt a.account w) =
      g.ledger.intents.total (·.charge a.account w) + g.ledger.liability a.account w := by
    rw [liability_eq_total]
    exact Table.total_add
  have hcharged := h.charged w
  unfold Governor.seen
  omega

/-! ## One act -/

theorem startOf_none {operationId : Uuid} (h : (g.startOf operationId).isNone = true) :
    ∀ d ∈ g.dispatches, d.operationId ≠ operationId := by
  intro d hd he
  simp only [Governor.startOf, Option.isNone_map, Option.isNone_iff_eq_none,
    List.find?_eq_none] at h
  exact h d hd (beq_iff_eq.mpr he)

theorem startOf_some {operationId : Uuid} {t : Instant} (h : g.startOf operationId = some t) :
    ∃ d ∈ g.dispatches, d.operationId = operationId ∧ d.startedAt = t := by
  obtain ⟨d, hd, ht⟩ := Option.map_eq_some_iff.mp h
  exact ⟨d, List.mem_of_find?_eq_some hd, by simpa using List.find?_some hd, ht⟩

theorem charge_of_ne {i : Intent} {account : Account} {w : Window} (h : i.status ≠ .finalized) :
    i.charge account w = 0 := by
  simp [Intent.charge, h]

theorem debt_of_ne {i : Intent} {account : Account} {w : Window} (h : i.status ≠ .unknown) :
    i.debt account w = 0 := by
  simp [Intent.debt, h]

theorem Holds.tick (h : Holds a g lv) (hclock : g.clock ≤ now) :
    Holds a { g with clock := now } lv :=
  { h with
    own := fun i hi hid =>
      let ⟨h1, h2, h3, h4⟩ := h.own i hi hid
      ⟨h1, h2, h3, h4.trans hclock⟩ }

theorem Safe.tick (h : Safe a g) (hclock : g.clock ≤ now) : Safe a { g with clock := now } :=
  { h with
    past := fun d hd => (h.past d hd).trans hclock
    live := fun lv hlive => (h.live lv hlive).tick hclock }

/-- Only the memory of the process changes. -/
theorem Safe.remember (h : Safe a g) {lv' : Live} (hlive : Holds a g lv') :
    Safe a { g with live := some lv' } :=
  { h with live := fun lv he => by cases he; exact ⟨hlive.account, hlive.perDay, hlive.perMinute,
      hlive.alone, hlive.own, hlive.armed, hlive.room, hlive.kind, hlive.flagged, hlive.started⟩ }

theorem Safe.crash (h : Safe a g) : Safe a { g with live := none } :=
  { h with live := fun lv he => by cases he }

/-- The next process takes the armed rows over as debt. -/
theorem Safe.enter (h : Safe a g) {op : Operation} {l : Ledger}
    (hok : a.admits g (.enter now op)) (hr : recover op now g.ledger = .ok l) :
    Safe a { g with ledger := l, live := some ⟨op, none, none, false⟩, clock := now } := by
  obtain ⟨hclock, haccount, hday, hminute, hfresh, hunseen⟩ := hok
  obtain ⟨hintents, hquota⟩ := recover_ok hr
  have hrow : ∀ i' ∈ l.intents, ∃ i ∈ g.ledger.intents,
      i' = if op.recovers i then i.lapse now else i := by
    intro i' hi'
    rw [hintents] at hi'
    exact Table.mem_update.mp hi'
  refine ⟨h.ids, fun d hd => (h.past d hd).trans hclock, fun d hd hcounts => ?_, fun w => ?_,
    fun lv he => ?_, h.limit⟩
  · obtain ⟨i, hi, htrace⟩ := h.traced d hd hcounts
    refine ⟨if op.recovers i then i.lapse now else i, ?_, ?_⟩
    · change _ ∈ l.intents
      rw [hintents]
      exact Table.mem_update.mpr ⟨i, hi, rfl⟩
    · split
      · exact ⟨htrace.operationId, htrace.account, htrace.units, htrace.armed,
          Or.inr (Or.inl ⟨rfl, now, rfl, (h.past d hd).trans hclock⟩)⟩
      · exact htrace
  · change l.intents.total _ ≤ l.used a.account w
    have hused : l.used a.account w = g.ledger.used a.account w := by
      unfold Ledger.used
      rw [hquota]
    rw [hused, hintents, Table.total_update]
    refine le_trans (Table.total_congr fun i _ => ?_).le (h.charged w)
    split
    · rename_i hrec
      have harmed : i.status = .armed := by
        simp only [Operation.recovers, Bool.and_eq_true, beq_iff_eq] at hrec
        exact hrec.2
      rw [charge_of_ne (i := i) (by rw [harmed]; intro he; cases he)]
      exact charge_of_ne (by intro he; cases he)
    · rfl
  · cases he
    refine ⟨haccount, hday, hminute, fun i' hi' hacc hst => ?_, fun i' hi' hid => ?_,
      fun hp => (by cases hp), fun p hp => (by cases hp), fun d hd hid => ?_,
      fun d hd hid => ?_, fun t ht => (by cases ht)⟩
    · obtain ⟨i, hi, rfl⟩ := hrow i' hi'
      split at hst
      · cases hst
      · rename_i hrec
        rw [if_neg hrec] at hacc
        exact absurd (by simp [Operation.recovers, hacc, hst, haccount]) hrec
    · obtain ⟨i, hi, rfl⟩ := hrow i' hi'
      refine absurd ?_ (hfresh i hi)
      split at hid
      · exact hid
      · exact hid
    · exact absurd hid (hunseen d hd)
    · exact absurd hid (hunseen d hd)

/-- Arming weighs nothing yet. -/
theorem arm_total {f : Intent → Nat} (hlive : Holds a g lv)
    (hf : ∀ i : Intent, i.status = .armed → f i = 0) :
    (g.ledger.arm lv.op now).intents.total f = g.ledger.intents.total f := by
  unfold Ledger.arm
  refine Table.total_upsert (hf _ rfl) fun q hq hid => ?_
  have harmed : q.status = .armed := (hlive.own q hq hid).2.1
  rw [hf q harmed]
  exact hf _ harmed

theorem liability_arm (hlive : Holds a g lv) (w : Window) :
    (g.ledger.arm lv.op now).liability a.account w = g.ledger.liability a.account w := by
  rw [liability_eq_total, liability_eq_total]
  exact arm_total hlive fun i hi => debt_of_ne (by rw [hi]; intro he; cases he)

/-- The process arms its intent, or arms it again in the next window. -/
theorem Safe.arm (h : Safe a g) (hlive : g.live = some lv) (hclock : g.clock ≤ now)
    (hstart : lv.startedAt = none) (hposs : lv.possiblyStarted = false) :
    Safe a { g with ledger := g.ledger.arm lv.op now, clock := now } := by
  have hholds := h.live lv hlive
  have hown : ∀ i ∈ (g.ledger.arm lv.op now).intents, i.operationId = lv.op.operationId →
      i.account = a.account ∧ i.status = .armed ∧ i.requestUnits = lv.op.kind.units ∧
        i.armedAt ≤ now := by
    intro i hi hid
    rcases mem_arm hi with ⟨_, hne⟩ | rfl | ⟨q, hq, hqid, rfl⟩
    · exact absurd hid hne
    · exact ⟨hholds.account, rfl, rfl, le_refl _⟩
    · obtain ⟨hacc, hst, hunits, _⟩ := hholds.own q hq hqid
      refine ⟨hacc, hst, hunits, ?_⟩
      simp [Intent.rearm, hst]
  refine ⟨h.ids, fun d hd => (h.past d hd).trans hclock, fun d hd hcounts => ?_, fun w => ?_,
    fun lv' he => ?_, h.limit⟩
  · obtain ⟨i, hi, htrace⟩ := h.traced d hd hcounts
    refine ⟨i, ?_, htrace⟩
    have hne : lv.op.operationId ≠ i.operationId := by
      intro he
      rcases hholds.flagged d hd (htrace.operationId.symm.trans he.symm) hcounts with hs | hp
      · rw [hstart] at hs
        cases hs
      · rw [hposs] at hp
        cases hp
    change i ∈ (g.ledger.arm lv.op now).intents
    rw [Table.mem_iff_find?, Ledger.find?_arm, if_neg hne]
    exact Table.find?_self hi
  · change (g.ledger.arm lv.op now).intents.total _ ≤ g.ledger.used a.account w
    rw [arm_total hholds fun i hi => charge_of_ne (by rw [hi]; intro he; cases he)]
    exact h.charged w
  · have hsame : lv' = lv := Option.some.inj (he.symm.trans hlive)
    subst hsame
    refine ⟨hholds.account, hholds.perDay, hholds.perMinute, fun i hi hacc hst => ?_, hown,
      fun _ => ?_, fun p hp hk w hw n hn => ?_, hholds.kind, hholds.flagged, hholds.started⟩
    · rcases mem_arm hi with ⟨hold, _⟩ | rfl | ⟨q, _, hqid, rfl⟩
      · exact hholds.alone i hold hacc hst
      · rfl
      · exact hqid
    · have hfind := g.ledger.find?_arm lv'.op now lv'.op.operationId
      rw [if_pos rfl] at hfind
      exact ⟨_, Table.find?_eq_some.mp hfind⟩
    · change g.ledger.used a.account w + (g.ledger.arm lv'.op now).liability a.account w + 1 ≤ n
      rw [liability_arm hholds]
      exact hholds.room p hp hk w hw n hn

theorem units_of_ne {kind : OperationKind} (h : kind ≠ .cleanup) : kind.units = 1 := by
  cases kind with
  | cleanup => exact absurd rfl h
  | call | sdkLogin => rfl

/-- The check leaves room for one request in both windows. -/
theorem room_of_fits {op : Operation} {l : Ledger} {w : Window} {n : Nat}
    (hfits : (op.limits now).all (fun w => op.fits l w.1 w.2) = true)
    (hday : op.requestsPerDay = a.requestsPerDay)
    (hminute : op.requestsPerMinute = a.requestsPerMinute) (hk : op.kind ≠ .cleanup)
    (hw : w = (windows now).1 ∨ w = (windows now).2) (hn : a.limit w = some n) :
    l.used op.account w + l.liability op.account w + 1 ≤ n := by
  have hfit : op.fits l w (a.limit w) = true := by
    rw [List.all_eq_true] at hfits
    rcases hw with rfl | rfl
    · refine hfits ((windows now).1, a.limit (windows now).1) ?_
      simp [Operation.limits, windows, Shared.limit, hday]
    · refine hfits ((windows now).2, a.limit (windows now).2) ?_
      simp [Operation.limits, windows, Shared.limit, hminute]
  rw [hn] at hfit
  simpa [Operation.fits, units_of_ne hk] using hfit

/-- A turn of `prepare` that returns leaves windows with room. -/
theorem Safe.prepare (h : Safe a g) (hlive : g.live = some lv) (hclock : g.clock ≤ now)
    (hstart : lv.startedAt = none) (hposs : lv.possiblyStarted = false) (publishes : Bool) :
    Safe a (g.prepare lv now publishes) := by
  have hforget {g' : Governor} (h' : Safe a g') (hlive' : g'.live = some lv) :
      Safe a { g' with live := some { lv with prepared := none } } := by
    have hholds := h'.live lv hlive'
    exact h'.remember ⟨hholds.account, hholds.perDay, hholds.perMinute, hholds.alone, hholds.own,
      fun hp => (by cases hp), fun p hp => (by cases hp), hholds.kind, hholds.flagged,
      hholds.started⟩
  have harm := h.arm hlive hclock hstart hposs
  unfold Governor.prepare
  cases hp : Fetcher.prepare lv.op now publishes g.ledger with
  | ok r =>
    obtain ⟨l, p⟩ := r
    rcases prepareTurn_cases (prepare_ok hp) with ⟨rfl, rfl⟩ | ⟨q, rfl, hwindows, rfl, hfits⟩
    · exact hforget (h.tick hclock) hlive
    · have hholds := harm.live lv hlive
      refine harm.remember ⟨hholds.account, hholds.perDay, hholds.perMinute, hholds.alone,
        hholds.own, fun _ => ?_, fun p hq hk w hw n hn => ?_, hholds.kind, hholds.flagged,
        hholds.started⟩
      · have hfind := g.ledger.find?_arm lv.op now lv.op.operationId
        rw [if_pos rfl] at hfind
        exact ⟨_, Table.find?_eq_some.mp hfind⟩
      · change g.ledger.used a.account w + (g.ledger.arm lv.op now).liability a.account w + 1 ≤ n
        rw [liability_arm (h.live lv hlive)]
        cases hq
        rw [hwindows] at hw
        have hroom := room_of_fits hfits hholds.perDay hholds.perMinute hk hw hn
        rwa [hholds.account] at hroom
  | error r =>
    simp only
    cases hkept : r.kept with
    | none => exact hforget (h.tick hclock) hlive
    | some k =>
      rcases prepare_kept hp hkept with rfl | rfl
      · exact hforget (h.tick hclock) hlive
      · exact hforget harm hlive

/-- **The request is made** where the check has left room for it. -/
theorem Safe.dispatch (h : Safe a g) (hlive : g.live = some lv) (hclock : g.clock ≤ now)
    (hmay : lv.mayStart now = true) (hnew : ∀ d ∈ g.dispatches, d.operationId ≠ lv.op.operationId)
    {lv' : Live} (hop : lv'.op = lv.op) (hprep : lv'.prepared = lv.prepared)
    (hflag : lv.op.kind ≠ .cleanup → lv'.startedAt.isSome = true ∨ lv'.possiblyStarted = true)
    (hstart : ∀ t, lv'.startedAt = some t → t = now) : Safe a (g.dispatch lv now lv') := by
  have hholds := h.live lv hlive
  obtain ⟨p, hp, hwhen⟩ : ∃ p, lv.prepared = some p ∧
      (lv.op.kind ≠ .cleanup → p.windows = windows now) := by
    simp only [Live.mayStart, Bool.and_eq_true, Option.any_eq_true, Bool.or_eq_true,
      beq_iff_eq] at hmay
    obtain ⟨_, p, hp, hor⟩ := hmay
    exact ⟨p, hp, fun hk => hor.resolve_left hk⟩
  obtain ⟨i, hi, hid⟩ := hholds.armed (by rw [hp]; rfl)
  obtain ⟨hacc, hst, hunits, hat⟩ := hholds.own i hi hid
  have hmem {d : Dispatch} (hd : d ∈ (g.dispatch lv now lv').dispatches) :
      d ∈ g.dispatches ∨ d = ⟨lv.op.operationId, lv.op.kind, now⟩ := by
    simpa [Governor.dispatch] using hd
  refine ⟨?_, fun d hd => ?_, fun d hd hcounts => ?_, h.charged, fun lv'' he => ?_,
    fun w n hn => ?_⟩
  · simp only [Governor.dispatch, List.map_append, List.map_cons, List.map_nil]
    refine List.nodup_append.mpr ⟨h.ids, List.nodup_singleton _, ?_⟩
    intro x hx y hy
    obtain ⟨d, hd, rfl⟩ := List.mem_map.mp hx
    rw [List.mem_singleton.mp hy]
    exact hnew d hd
  · rcases hmem hd with hd | rfl
    · exact (h.past d hd).trans hclock
    · exact le_refl _
  · rcases hmem hd with hd | rfl
    · exact h.traced d hd hcounts
    · have hk : lv.op.kind ≠ .cleanup := by simpa [Dispatch.counts] using hcounts
      exact ⟨i, hi, hid, hacc, hunits.trans (units_of_ne hk), hat.trans hclock, Or.inl hst⟩
  · cases he
    refine ⟨?_, ?_, ?_, ?_, ?_, ?_, ?_, fun d hd hdid => ?_, fun d hd hdid hcounts => ?_,
      fun t ht => ?_⟩
    · rw [hop]; exact hholds.account
    · rw [hop]; exact hholds.perDay
    · rw [hop]; exact hholds.perMinute
    · rw [hop]; exact hholds.alone
    · rw [hop]; exact (hholds.tick hclock).own
    · rw [hop, hprep]; exact hholds.armed
    · rw [hop, hprep]; exact hholds.room
    · rw [hop] at hdid ⊢
      rcases hmem hd with hd | rfl
      · exact absurd hdid (hnew d hd)
      · rfl
    · rw [hop] at hdid
      rcases hmem hd with hd | rfl
      · exact absurd hdid (hnew d hd)
      · exact hflag (by simpa [Dispatch.counts] using hcounts)
    · rw [hop]
      refine ⟨⟨lv.op.operationId, lv.op.kind, now⟩, ?_, rfl, (hstart t ht).symm⟩
      simp [Governor.dispatch]
  · have hseen : (g.dispatch lv now lv').seen w = g.seen w +
        if lv.op.kind != .cleanup && w.holds now then 1 else 0 := by
      unfold Governor.seen Governor.dispatch
      rw [List.filter_append, List.length_append]
      congr 1
      simp only [List.filter_cons, List.filter_nil, Dispatch.counts]
      split <;> rfl
    rw [hseen]
    split
    · rename_i hc
      obtain ⟨hk, hw⟩ := Bool.and_eq_true_iff.mp hc
      have hk : lv.op.kind ≠ .cleanup := by simpa using hk
      have hroom := hholds.room p hp hk w (by rw [hwhen hk]; exact holds_iff.mp hw) n hn
      have hle := h.seen_le hlive hnew w
      omega
    · exact h.limit w n hn

/-- The process gives the lock back with its own row rewritten. -/
theorem Safe.settle (h : Safe a g) (hclock : g.clock ≤ now)
    {l' : Ledger} {i : Intent} {f : Intent → Intent} (hf : ∀ i, (f i).operationId = i.operationId)
    (hi : i ∈ g.ledger.intents) (hid : i.operationId = lv.op.operationId)
    (hintents : l'.intents = g.ledger.intents.modify i.operationId f hf)
    (htrace : ∀ d ∈ g.dispatches, d.operationId = lv.op.operationId → d.counts = true →
      Traces a i d → Traces a (f i) d)
    (hcharge : ∀ w, g.ledger.used a.account w + (f i).charge a.account w ≤ l'.used a.account w) :
    Safe a { g with ledger := l', live := none, clock := now } := by
  refine ⟨h.ids, fun d hd => (h.past d hd).trans hclock, fun d hd hcounts => ?_, fun w => ?_,
    fun lv he => (by cases he), h.limit⟩
  · obtain ⟨j, hj, hjd⟩ := h.traced d hd hcounts
    change ∃ j ∈ l'.intents, _
    rw [hintents]
    by_cases hji : j.operationId = i.operationId
    · have hsame : j = i := Table.eq_of_key hj hi hji
      subst hsame
      exact ⟨f j, Table.mem_modify.mpr (Or.inr ⟨j, hi, rfl, rfl⟩),
        htrace d hd (hjd.operationId.symm.trans hid) hcounts hjd⟩
    · exact ⟨j, Table.mem_modify.mpr (Or.inl ⟨hj, hji⟩), hjd⟩
  · change l'.intents.total _ ≤ l'.used a.account w
    rw [hintents]
    have htotal : (g.ledger.intents.modify i.operationId f hf).total (·.charge a.account w) +
        i.charge a.account w = g.ledger.intents.total (·.charge a.account w) +
          (f i).charge a.account w := Table.total_modify hi
    have hold := h.charged w
    have hnew := hcharge w
    omega

/-- The end of an operation accounts for its request, if it made one. -/
theorem Safe.finish (h : Safe a g) (hlive : g.live = some lv) (hclock : g.clock ≤ now)
    (outcome : Outcome) : Safe a (g.finish lv now outcome) := by
  have hholds := h.live lv hlive
  unfold Governor.finish
  split
  · rename_i l hfin
    rcases finalize_cases hfin with rfl | ⟨⟨i, hi, hid, _⟩, hend⟩
    · exact (h.tick hclock).crash
    · obtain ⟨hacc, _, hunits, _⟩ := hholds.own i hi hid
      rcases hend with ⟨_, _, rfl⟩ | ⟨hnone, hposs, rfl⟩ | ⟨t, hsome, _, rfl⟩
      · refine h.settle hclock (Intent.lapse_id now) hi hid (by rw [hid]; rfl)
          (fun d hd _ _ hd' => ?_) fun w => ?_
        · exact ⟨hd'.operationId, hd'.account, hd'.units, hd'.armed,
            Or.inr (Or.inl ⟨rfl, now, rfl, (h.past d hd).trans hclock⟩)⟩
        · rw [charge_of_ne (by intro he; cases he)]
          exact le_refl _
      · refine h.settle hclock (Intent.cancel_id now) hi hid (by rw [hid]; rfl)
          (fun d hd hdid hcounts _ => ?_) fun w => ?_
        · rcases hholds.flagged d hd hdid hcounts with hs | hp
          · rw [hnone] at hs
            cases hs
          · rw [hposs] at hp
            cases hp
        · rw [charge_of_ne (by intro he; cases he)]
          exact le_refl _
      · have hintents : (((g.ledger.chargeStart lv.op t).recordFloor lv.op.account
            (now + lv.op.interval) .pacing).setIntent lv.op.operationId (·.settle t now outcome)
              (Intent.settle_id t now outcome)).intents = g.ledger.intents.modify i.operationId
                (·.settle t now outcome) (Intent.settle_id t now outcome) := by
          rw [hid, ← Ledger.chargeStart_intents g.ledger lv.op t]
          rfl
        refine h.settle hclock (Intent.settle_id t now outcome) hi hid hintents
          (fun d hd hdid _ hd' => ?_) fun w => ?_
        · obtain ⟨e, he, heid, het⟩ := hholds.started t hsome
          have hde : d = e := h.unique hd he (hdid.trans heid.symm)
          exact ⟨hd'.operationId, hd'.account, hd'.units, hd'.armed,
            Or.inr (Or.inr ⟨rfl, by rw [hde, het]; rfl⟩)⟩
        · change _ ≤ (g.ledger.chargeStart lv.op t).used a.account w
          rw [← hholds.account, used_chargeStart]
          simp only [Intent.charge, Intent.settle, hacc, hholds.account, hunits, beq_self_eq_true,
            Option.any_some, Bool.true_and]
          exact le_refl _
  · exact h.tick hclock

/-- **Step lemma.** -/
theorem Safe.act {e : Act} (h : Safe a g) (hok : a.admits g e) : Safe a (g.act e) := by
  cases hlive : g.live with
  | none =>
    cases e with
    | enter now op =>
      simp only [Governor.act, Governor.enter, hlive]
      split
      · rename_i l hr
        exact h.enter hok hr
      · exact (h.tick hok.1).crash
    | _ =>
      simp only [Governor.act, hlive]
      exact h
  | some lv =>
    have hholds := h.live lv hlive
    cases e with
    | enter now op =>
      simp only [Governor.act, Governor.enter, hlive]
      exact h
    | prepare now publishes =>
      simp only [Governor.act, hlive, Governor.actLive]
      split
      · exact h
      · rename_i hnot
        simp only [Bool.or_eq_true, not_or, Bool.not_eq_true, Option.isSome_eq_false_iff,
          Option.isNone_iff_eq_none] at hnot
        exact h.prepare hlive hok hnot.1 hnot.2 publishes
    | confirmStart now =>
      simp only [Governor.act, hlive, Governor.actLive]
      split
      · rename_i hc
        simp only [Bool.and_eq_true] at hc
        exact h.dispatch hlive hok hc.1.1 (startOf_none hc.2) rfl rfl (fun _ => Or.inl rfl)
          fun t ht => (Option.some.inj ht).symm
      · exact h
    | go =>
      simp only [Governor.act, hlive, Governor.actLive]
      split
      · exact h.remember { hholds with flagged := fun _ _ _ _ => Or.inr rfl }
      · exact h
    | childStart now =>
      simp only [Governor.act, hlive, Governor.actLive]
      split
      · rename_i hc
        simp only [Bool.and_eq_true, Bool.or_eq_true, beq_iff_eq] at hc
        refine h.dispatch hlive hok hc.1.1 (startOf_none hc.2) rfl rfl
          (fun hk => Or.inr (hc.1.2.resolve_right hk)) fun t ht => ?_
        have hnone := hc.1.1
        simp [Live.mayStart, ht] at hnone
      · exact h
    | retry =>
      simp only [Governor.act, hlive, Governor.actLive]
      split
      · rename_i hnone
        exact h.remember { hholds with
          flagged := fun d hd hid _ => absurd hid (startOf_none hnone d hd) }
      · exact h
    | report =>
      simp only [Governor.act, hlive, Governor.actLive]
      refine h.remember { hholds with
        flagged := fun d hd hid hcounts => ?_
        started := fun t ht => ?_ }
      · cases hs : g.startOf lv.op.operationId with
        | none => exact absurd hid (startOf_none (by rw [hs]; rfl) d hd)
        | some t => exact Or.inl rfl
      · cases hs : g.startOf lv.op.operationId with
        | none =>
          rw [hs] at ht
          exact hholds.started t ht
        | some t' =>
          rw [hs] at ht
          cases ht
          exact startOf_some hs
    | finish now outcome =>
      simp only [Governor.act, hlive, Governor.actLive]
      exact h.finish hlive hok outcome
    | crash =>
      simp only [Governor.act, hlive, Governor.actLive]
      exact h.crash

theorem Safe.init (a : Shared) : Safe a Governor.init where
  ids := List.nodup_nil
  past := fun d hd => (by cases hd)
  traced := fun d hd => (by cases hd)
  charged := fun w => Nat.zero_le _
  live := fun lv he => (by cases he)
  limit := fun w n _ => Nat.zero_le n

/-- **Quota safety.** No UTC day or minute sees more requests than its limit, wherever
the processes of the account crash. -/
theorem dispatches_within_limit (a : Shared) (g : Governor) (hg : a.Reachable g) (w : Window)
    (n : Nat) (hn : a.limit w = some n) : g.seen w ≤ n := by
  have hsafe : Safe a g := StepsIf.inv (fun _ _ hs hok => hs.act hok) hg (Safe.init a)
  exact hsafe.limit w n hn

/-- A call of an account with one request a minute. -/
def oneAMinute (operationId : Uuid) : Operation :=
  ⟨operationId, .shioaji, "a".toList, .call "kbars", none, some 1, second, 60 * second⟩

/-- A process asks the provider and crashes; the next one finds its debt. -/
def crashedRun : List Act :=
  [.enter 1 (oneAMinute 1), .prepare 2 false, .confirmStart 3, .crash, .enter 4 (oneAMinute 2),
    .prepare 5 false, .confirmStart 6]

theorem dispatches_within_limit_crashedRun :
    let a : Shared := ⟨"a".toList, none, some 1⟩
    let g := runAll Governor.act crashedRun Governor.init
    a.Reachable g ∧ a.limit (.minute 0) = some 1 ∧ g.seen (.minute 0) = 1 ∧
      g.seen (.minute 0) ≤ 1 := by
  intro a g
  have hg : a.Reachable g := by
    refine runAll_steps crashedRun Governor.init ⟨?_, ?_, ?_, trivial, ?_, ?_, ?_, trivial⟩
    · exact ⟨by decide, rfl, rfl, rfl, fun i hi => (by cases hi), fun d hd => (by cases hd)⟩
    · exact (by decide : 1 ≤ 2)
    · exact (by decide : 2 ≤ 3)
    · refine ⟨by decide, rfl, rfl, rfl, ?_, by decide⟩
      exact (by decide : ∀ i ∈ (runAll Governor.act (crashedRun.take 4) .init).ledger.intents.rows,
        i.operationId ≠ 2)
    · exact (by decide : 4 ≤ 5)
    · exact (by decide : 5 ≤ 6)
  exact ⟨hg, rfl, by decide, dispatches_within_limit a g hg (.minute 0) 1 rfl⟩

end FinDB.Fetcher
