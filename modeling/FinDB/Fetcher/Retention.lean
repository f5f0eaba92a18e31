import Mathlib.Data.List.Dedup
import FinDB.Fetcher.Acquisition

/-! # Retention of the account ledger

Once a day the ledger drops settled intents and past windows that are more than a
week old, in batches. A batch may be the last one, and consumers go on between two
batches; none of them is answered differently for it. -/
namespace FinDB.Fetcher
open FinDB.Lib

/-! ## The consumers -/

/-- What a consumer may ask of the ledger. -/
inductive Call where
  /-- `FullMarketState(path)`. -/
  | open_
  | enter (now : Instant) (op : Operation)
  | prepare (now : Instant) (op : Operation) (publishes : Bool)
  | usage (op : Operation) (sample : Usage)
  | rateLimited (now : Instant) (op : Operation) (delay : Nat)
  | finish (now : Instant) (op : Operation) (startedAt : Option Instant) (possiblyStarted : Bool)
      (outcome : Outcome)
  | reserve (now : Instant) (r : Reservation)

inductive Answer where
  | done
  | waits (wait : Nat)
  | prepared (p : Prepared)
  | granted (g : Granted)
  | refused (e : QuotaBlocked)
deriving DecidableEq, Repr

/-- Cooldowns that older runtimes wrote into quota rows become floors. -/
def Ledger.promote (l : Ledger) : Ledger :=
  ((l.quota.rows.filter fun r => decide (0 < r.blockedUntil)).map (·.account)).dedup.foldl
    (fun s account => s.recordFloor account (l.blockedUntil account) .quotaBlock) l

/-- A pacing floor becomes a cooldown, unless that is as long. -/
def Ledger.liftFloor (l : Ledger) (p : Pacing) : Ledger :=
  { l with
    cooldown := l.cooldown.upsert ⟨p.account, p.nextAt, .legacy⟩ fun c => { c with
      notBefore := max c.notBefore p.nextAt
      reason := if c.notBefore < p.nextAt then .legacy else c.reason } }

/-- `INSERT INTO full_account_cooldown SELECT .. FROM full_pacing`. -/
def Ledger.promotePacing (l : Ledger) : Ledger := l.pacing.rows.foldl Ledger.liftFloor l

/-- The schema script of `FullMarketState.__init__`. -/
def Ledger.opened (l : Ledger) : Ledger := l.promotePacing.promote

/-- `INSERT OR IGNORE INTO acquisition_usage`. -/
def Ledger.sample (l : Ledger) (op : Operation) (u : Usage) : Ledger :=
  { l with usage := (l.usage.insert? { u with operationId := op.operationId }).getD l.usage }

theorem mem_sample {l : Ledger} {op : Operation} {u u' : Usage} (h : u' ∈ (l.sample op u).usage) :
    u' ∈ l.usage ∨ u'.operationId = op.operationId := by
  unfold Ledger.sample at h
  cases hins : l.usage.insert? { u with operationId := op.operationId } with
  | none =>
    rw [hins] at h
    exact Or.inl h
  | some t =>
    rw [hins] at h
    rcases (Table.mem_insert? hins).mp h with hold | rfl
    · exact Or.inl hold
    · exact Or.inr rfl

def Ledger.call (l : Ledger) : Call → Ledger × Answer
  | .open_ => (l.opened, .done)
  | .enter now op =>
    match recover op now l with
    | .ok l' => (l', .done)
    | .error e => (l, .refused e)
  | .prepare now op publishes =>
    match prepare op now publishes l with
    | .ok (l', some p) => (l', .prepared p)
    | .ok (l', none) => (l', .waits (op.wait now l))
    | .error r => (r.kept.getD l, .refused r.err)
  | .usage op sample => (l.sample op sample, .done)
  | .rateLimited now op delay => (l.recordFloor op.account (now + delay) .rateLimited, .done)
  | .finish now op startedAt possiblyStarted outcome =>
    match finalize op startedAt possiblyStarted outcome now l with
    | .ok l' => (l', .done)
    | .error e => (l, .refused e)
  | .reserve now r =>
    match reserveAcquisition r now l with
    | .ok (l', g) => (l', .granted g)
    | .error e => (e.kept.getD l, .refused e.err)

/-- The operation that a call speaks for. -/
def Call.operationId : Call → Option Uuid
  | .open_ | .reserve _ _ => none
  | .enter _ op | .prepare _ op _ | .usage op _ | .rateLimited _ op _ | .finish _ op _ _ _ =>
    some op.operationId

/-- The clock of a call is not before `t`. -/
def Call.notBefore (t : Instant) : Call → Prop
  | .open_ | .usage _ _ => True
  | .enter now _ | .prepare now _ _ | .rateLimited now _ _ | .finish now _ _ _ _ | .reserve now _ =>
    t ≤ now

/-! ## The prune -/

/-- A run of `prune_account_ledger` that has claimed its day. -/
structure Prune where
  now : Instant
  retained : List Account
  batch : Nat
deriving DecidableEq, Repr

/-- `ACCOUNT_LEDGER_RETENTION_SECONDS`. -/
def retention : Nat := 7 * day

/-- `ACCOUNT_LEDGER_PRUNE_INTERVAL_SECONDS`. -/
def pruneInterval : Nat := day

/-- Shioaji history stays. -/
def Ledger.retainedAccounts (l : Ledger) : List Account :=
  ((l.identities.rows.filter (·.provider == .shioaji)).map (·.account)) ++
    (l.intents.rows.filter (·.provider == .shioaji)).map (·.account)

/-- The start of `prune_account_ledger`, at most once a day. -/
def Ledger.claimPrune (l : Ledger) (now : Instant) (batch : Nat) : Option (Ledger × Prune) :=
  if l.retention.any (now < ·) then none
  else some ({ l with retention := some (now + pruneInterval) }, ⟨now, l.retainedAccounts, batch⟩)

namespace Prune
variable (p : Prune)

def cutoff : Instant := p.now - Fetcher.retention

theorem cutoff_le : p.cutoff ≤ p.now := by
  unfold cutoff
  exact Nat.sub_le p.now Fetcher.retention

def cutoffDay : Nat := p.cutoff / day

/-- A settled intent past the retention. -/
def idle (i : Intent) : Bool :=
  !i.status.open_ && i.completedAt.any fun t => decide (t < p.cutoff)

/-- A window past the retention that blocks nothing. -/
def past (r : QuotaRow) : Bool :=
  decide (r.window.date < p.cutoffDay) && decide (r.blockedUntil < p.now)

end Prune

/-- One transaction of the prune: what its `SELECT .. LIMIT` has returned. -/
inductive Batch where
  | intents (account : Account) (status : IntentStatus) (ids : List Uuid)
  | windows (account : Account) (windows : List Window)
deriving DecidableEq, Repr

/-- The rows of a batch are some that its query matches. -/
def Batch.selected (p : Prune) (l : Ledger) : Batch → Bool
  | .intents account status ids =>
    !p.retained.contains account && !status.open_ && decide (ids.length ≤ p.batch) &&
    ids.all fun k => (l.intents.find? k).any fun i =>
      i.account == account && i.status == status && i.completedAt.any fun t => decide (t < p.cutoff)
  | .windows account ws =>
    !p.retained.contains account && decide (ws.length ≤ p.batch) &&
    ws.all fun w => (l.quota.find? (account, w)).any p.past

def Ledger.pruneBatch (l : Ledger) (p : Prune) (b : Batch) : Ledger :=
  if b.selected p l then
    match b with
    | .intents _ _ ids =>
      { l with
        usage := l.usage.delete fun u => ids.contains u.operationId
        intents := l.intents.delete fun i => ids.contains i.operationId }
    | .windows account ws =>
      { l with quota := l.quota.delete fun r => r.account == account && ws.contains r.window }
  else l

/-- What happens to the ledger: consumers, and the transactions of the prune. -/
inductive Event where
  | call (c : Call)
  | batch (b : Batch)

def Event.call? : Event → Option Call
  | .call c => some c
  | .batch _ => none

/-- The answers the consumers get without the prune. -/
def Ledger.answers : List Call → Ledger → List Answer
  | [], _ => []
  | c :: rest, l => (l.call c).2 :: Ledger.answers rest (l.call c).1

/-- The answers the consumers get. -/
def Prune.answers (p : Prune) : List Event → Ledger → List Answer
  | [], _ => []
  | .call c :: rest, l => (l.call c).2 :: p.answers rest (l.call c).1
  | .batch b :: rest, l => p.answers rest (l.pruneBatch p b)

/-! ## Floors that still matter -/

/-- Floors are the same, apart from those that have passed. -/
structure SameFloors (t : Instant) (s l : Ledger) : Prop where
  pacing : ∀ a, max t (s.nextAt a) = max t (l.nextAt a)
  cooldown : ∀ a, (s.cooldown.find? a).filter (fun c => decide (t < c.notBefore)) =
    (l.cooldown.find? a).filter fun c => decide (t < c.notBefore)

/-- The cooldown of an account after `record_floor`. -/
def floored (account : Account) (until_ : Instant) (reason : FloorReason) (c : Option Cooldown) :
    Cooldown :=
  c.elim ⟨account, until_, reason⟩ fun c => { c with
    notBefore := max c.notBefore until_
    reason := if c.notBefore ≤ until_ then reason else c.reason }

theorem find?_recordFloor (l : Ledger) (account : Account) (until_ : Instant)
    (reason : FloorReason) (a : Account) :
    (l.recordFloor account until_ reason).cooldown.find? a =
      if account = a then some (floored account until_ reason (l.cooldown.find? a))
      else l.cooldown.find? a := by
  unfold Ledger.recordFloor
  exact Table.find?_upsert

section Floors
variable {t u u' : Instant} {a : Account} {reason : FloorReason} {c c' : Option Cooldown}

/-- A floor that has passed changes nothing that matters. -/
theorem floored_of_le (hu : u ≤ t) :
    (some (floored a u reason c)).filter (fun c => decide (t < c.notBefore)) =
      c.filter fun c => decide (t < c.notBefore) := by
  cases c with
  | none => simp [floored, hu]
  | some r =>
    by_cases hr : t < r.notBefore
    · have hlt : u < r.notBefore := lt_of_le_of_lt hu hr
      have hmax : max r.notBefore u = r.notBefore := max_eq_left (le_of_lt hlt)
      have hsame : floored a u reason (some r) = r := by
        simp only [floored, Option.elim_some, hmax, if_neg (not_le.mpr hlt)]
      rw [hsame]
    · have hmax : ¬ t < max r.notBefore u := by
        rw [lt_max_iff]
        exact not_or.mpr ⟨hr, not_lt.mpr hu⟩
      simp only [floored, Option.elim_some, Option.filter_some, decide_eq_false hr,
        decide_eq_false hmax, Bool.false_eq_true, if_false]

/-- Equal floors on cooldowns that agree leave cooldowns that agree. -/
theorem floored_congr (hc : ∀ r, c = some r → r.account = a) (hc' : ∀ r, c' = some r → r.account = a)
    (h : c.filter (fun c => decide (t < c.notBefore)) =
      c'.filter fun c => decide (t < c.notBefore)) :
    (some (floored a u reason c)).filter (fun c => decide (t < c.notBefore)) =
      (some (floored a u reason c')).filter fun c => decide (t < c.notBefore) := by
  by_cases hu : u ≤ t
  · rw [floored_of_le hu, floored_of_le hu, h]
  · -- A floor ahead either is above what has passed, or meets the same cooldown.
    have hlate : ∀ d : Option Cooldown, (∀ r, d = some r → r.account = a) →
        d.filter (fun c => decide (t < c.notBefore)) = none → floored a u reason d = ⟨a, u, reason⟩ := by
      intro d hd hnone
      cases d with
      | none => rfl
      | some r =>
        have hr : r.notBefore ≤ t := by simpa using hnone
        have hle : r.notBefore ≤ u := hr.trans (le_of_not_ge hu)
        simp only [floored, Option.elim_some, max_eq_right hle, if_pos hle, hd r rfl]
    cases hf : c.filter fun c => decide (t < c.notBefore) with
    | none => rw [hlate c hc hf, hlate c' hc' (h ▸ hf)]
    | some r =>
      have hr : c = some r := (Option.filter_eq_some_iff.mp hf).1
      have hr' : c' = some r := (Option.filter_eq_some_iff.mp (h ▸ hf)).1
      rw [hr, hr']

theorem eq_or_le_of_max_eq (h : max t u = max t u') : u = u' ∨ (u ≤ t ∧ u' ≤ t) := by
  rcases le_or_gt u t with hu | hu
  · rw [max_eq_left hu] at h
    exact Or.inr ⟨hu, max_eq_left_iff.mp h.symm⟩
  · rcases le_or_gt u' t with hu' | hu'
    · rw [max_eq_left hu', max_eq_right (le_of_lt hu)] at h
      exact absurd h (ne_of_gt hu)
    · rw [max_eq_right (le_of_lt hu), max_eq_right (le_of_lt hu')] at h
      exact Or.inl h

end Floors

theorem SameFloors.recordFloor {t : Instant} {s l : Ledger} (h : SameFloors t s l) (a : Account)
    (u : Instant) (reason : FloorReason) :
    SameFloors t (s.recordFloor a u reason) (l.recordFloor a u reason) := by
  constructor
  · intro b
    rw [Ledger.nextAt_recordFloor, Ledger.nextAt_recordFloor]
    split
    · rw [← max_assoc, ← max_assoc, h.pacing]
    · exact h.pacing b
  · intro b
    rw [find?_recordFloor, find?_recordFloor]
    split
    · rename_i hb
      subst hb
      exact floored_congr (fun r hr => (Table.find?_eq_some.mp hr).2)
        (fun r hr => (Table.find?_eq_some.mp hr).2) (h.cooldown a)
    · exact h.cooldown b

/-! ## Floors of older runtimes -/

/-- The cooldown of an account after its pacing floor is promoted. -/
def lifted (account : Account) (until_ : Instant) (c : Option Cooldown) : Cooldown :=
  c.elim ⟨account, until_, .legacy⟩ fun c => { c with
    notBefore := max c.notBefore until_
    reason := if c.notBefore < until_ then .legacy else c.reason }

theorem find?_foldl_liftFloor (rows : List Pacing) (l : Ledger)
    (hn : (rows.map (·.account)).Nodup) (a : Account) :
    (rows.foldl Ledger.liftFloor l).cooldown.find? a =
      (rows.find? fun p => decide (p.account = a)).elim (l.cooldown.find? a) fun p =>
        some (lifted a p.nextAt (l.cooldown.find? a)) := by
  induction rows generalizing l with
  | nil => rfl
  | cons p rest ih =>
    obtain ⟨hnot, hn⟩ := List.nodup_cons.mp hn
    have hfind : (l.liftFloor p).cooldown.find? a = if p.account = a then
        some (lifted p.account p.nextAt (l.cooldown.find? a)) else l.cooldown.find? a := by
      unfold Ledger.liftFloor
      exact Table.find?_upsert
    rw [List.foldl_cons, ih _ hn, hfind]
    by_cases hp : p.account = a
    · subst hp
      have hrest : (rest.find? fun q => decide (q.account = p.account)) = none := by
        refine List.find?_eq_none.mpr fun q hq he => hnot (List.mem_map.mpr ⟨q, hq, ?_⟩)
        exact of_decide_eq_true he
      simp [hrest]
    · simp [hp]

theorem foldl_liftFloor_eq (rows : List Pacing) (l : Ledger) :
    rows.foldl Ledger.liftFloor l =
      { l with cooldown := (rows.foldl Ledger.liftFloor l).cooldown } := by
  induction rows generalizing l with
  | nil => rfl
  | cons p rest ih =>
    rw [List.foldl_cons, ih]
    rfl

theorem promotePacing_eq (l : Ledger) :
    l.promotePacing = { l with cooldown := l.promotePacing.cooldown } := foldl_liftFloor_eq _ _

theorem find?_promotePacing (l : Ledger) (a : Account) :
    l.promotePacing.cooldown.find? a = (l.pacing.find? a).elim (l.cooldown.find? a) fun p =>
      some (lifted a p.nextAt (l.cooldown.find? a)) :=
  find?_foldl_liftFloor _ _ l.pacing.nodup a

section Floors
variable {t u u' : Instant} {a : Account} {c c' : Option Cooldown}

/-- A floor that has passed lifts nothing that matters. -/
theorem lifted_of_le (hu : u ≤ t) :
    (some (lifted a u c)).filter (fun c => decide (t < c.notBefore)) =
      c.filter fun c => decide (t < c.notBefore) := by
  cases c with
  | none => simp [lifted, hu]
  | some r =>
    by_cases hr : t < r.notBefore
    · have hle : u ≤ r.notBefore := hu.trans (le_of_lt hr)
      have hsame : lifted a u (some r) = r := by
        simp only [lifted, Option.elim_some, max_eq_left hle, if_neg (not_lt.mpr hle)]
      rw [hsame]
    · have hmax : ¬ t < max r.notBefore u := by
        rw [lt_max_iff]
        exact not_or.mpr ⟨hr, not_lt.mpr hu⟩
      simp only [lifted, Option.elim_some, Option.filter_some, decide_eq_false hr,
        decide_eq_false hmax, Bool.false_eq_true, if_false]

theorem lifted_congr (hc : ∀ r, c = some r → r.account = a) (hc' : ∀ r, c' = some r → r.account = a)
    (h : c.filter (fun c => decide (t < c.notBefore)) =
      c'.filter fun c => decide (t < c.notBefore)) :
    (some (lifted a u c)).filter (fun c => decide (t < c.notBefore)) =
      (some (lifted a u c')).filter fun c => decide (t < c.notBefore) := by
  by_cases hu : u ≤ t
  · rw [lifted_of_le hu, lifted_of_le hu, h]
  · have hlate : ∀ d : Option Cooldown, (∀ r, d = some r → r.account = a) →
        d.filter (fun c => decide (t < c.notBefore)) = none → lifted a u d = ⟨a, u, .legacy⟩ := by
      intro d hd hnone
      cases d with
      | none => rfl
      | some r =>
        have hr : r.notBefore ≤ t := by simpa using hnone
        have hlt : r.notBefore < u := lt_of_le_of_lt hr (lt_of_not_ge hu)
        simp only [lifted, Option.elim_some, max_eq_right (le_of_lt hlt), if_pos hlt, hd r rfl]
    cases hf : c.filter fun c => decide (t < c.notBefore) with
    | none => rw [hlate c hc hf, hlate c' hc' (h ▸ hf)]
    | some r =>
      have hr : c = some r := (Option.filter_eq_some_iff.mp hf).1
      have hr' : c' = some r := (Option.filter_eq_some_iff.mp (h ▸ hf)).1
      rw [hr, hr']

end Floors

theorem cooldown_promotePacing (l : Ledger) (t : Instant) (a : Account) :
    (l.promotePacing.cooldown.find? a).filter (fun c => decide (t < c.notBefore)) =
      (some (lifted a (l.nextAt a) (l.cooldown.find? a))).filter
        fun c => decide (t < c.notBefore) := by
  rw [find?_promotePacing]
  unfold Ledger.nextAt
  cases l.pacing.find? a with
  | none => exact (lifted_of_le (Nat.zero_le t)).symm
  | some p => rfl

theorem SameFloors.promotePacing {t : Instant} {s l : Ledger} (h : SameFloors t s l) :
    SameFloors t s.promotePacing l.promotePacing := by
  constructor
  · intro a
    rw [promotePacing_eq s, promotePacing_eq l]
    exact h.pacing a
  · intro a
    rw [cooldown_promotePacing, cooldown_promotePacing]
    rcases eq_or_le_of_max_eq (h.pacing a) with heq | ⟨hs, hl⟩
    · rw [heq]
      exact lifted_congr (fun r hr => (Table.find?_eq_some.mp hr).2)
        (fun r hr => (Table.find?_eq_some.mp hr).2) (h.cooldown a)
    · rw [lifted_of_le hs, lifted_of_le hl]
      exact h.cooldown a

/-! ## The longest block of an account -/

theorem foldl_max_le (xs : List Nat) (n x : Nat) :
    xs.foldl max n ≤ x ↔ n ≤ x ∧ ∀ y ∈ xs, y ≤ x := by
  induction xs generalizing n with
  | nil => simp
  | cons y rest ih =>
    rw [List.foldl_cons, ih, Nat.max_le, List.forall_mem_cons, and_assoc]

theorem blockedUntil_le_iff (l : Ledger) (a : Account) (x : Instant) :
    l.blockedUntil a ≤ x ↔ ∀ w, l.blocked a w ≤ x := by
  unfold Ledger.blockedUntil Ledger.blocked
  rw [foldl_max_le]
  constructor
  · rintro ⟨_, h⟩ w
    cases hf : l.quota.find? (a, w) with
    | none => exact Nat.zero_le x
    | some r =>
      obtain ⟨hr, hkey⟩ := Table.find?_eq_some.mp hf
      refine h _ (List.mem_map.mpr ⟨r, List.mem_filter.mpr ⟨hr, ?_⟩, rfl⟩)
      exact beq_iff_eq.mpr (congrArg Prod.fst hkey)
  · refine fun h => ⟨Nat.zero_le x, fun y hy => ?_⟩
    obtain ⟨r, hr, rfl⟩ := List.mem_map.mp hy
    obtain ⟨hr, ha⟩ := List.mem_filter.mp hr
    have hkey : r.key = (a, r.window) := by rw [← beq_iff_eq.mp ha]; rfl
    have hw := h r.window
    rw [Table.find?_eq_some.mpr ⟨hr, hkey⟩] at hw
    exact hw

theorem foldl_recordFloor_eq (v : Account → Instant) (as : List Account) (l : Ledger) :
    as.foldl (fun s a => s.recordFloor a (v a) .quotaBlock) l =
      { l with
        pacing := (as.foldl (fun s a => s.recordFloor a (v a) .quotaBlock) l).pacing
        cooldown := (as.foldl (fun s a => s.recordFloor a (v a) .quotaBlock) l).cooldown } := by
  induction as generalizing l with
  | nil => rfl
  | cons a rest ih =>
    rw [List.foldl_cons, ih]
    rfl

/-- Floors of different accounts do not meet. -/
theorem floors_foldl_recordFloor (v : Account → Instant) (as : List Account) (l : Ledger)
    (hn : as.Nodup) (b : Account) :
    (as.foldl (fun s a => s.recordFloor a (v a) .quotaBlock) l).nextAt b =
      (if b ∈ as then max (l.nextAt b) (v b) else l.nextAt b) ∧
    (as.foldl (fun s a => s.recordFloor a (v a) .quotaBlock) l).cooldown.find? b =
      if b ∈ as then some (floored b (v b) .quotaBlock (l.cooldown.find? b))
      else l.cooldown.find? b := by
  induction as generalizing l with
  | nil => exact ⟨rfl, rfl⟩
  | cons a rest ih =>
    obtain ⟨hnot, hn⟩ := List.nodup_cons.mp hn
    obtain ⟨hnext, hfind⟩ := ih (l.recordFloor a (v a) .quotaBlock) hn
    rw [List.foldl_cons, hnext, hfind, Ledger.nextAt_recordFloor, find?_recordFloor]
    by_cases hab : a = b
    · subst hab
      simp [hnot]
    · simp [hab, Ne.symm hab]

theorem blockedUntil_eq_zero {l : Ledger} {b : Account}
    (h : b ∉ ((l.quota.rows.filter fun r => decide (0 < r.blockedUntil)).map (·.account)).dedup) :
    l.blockedUntil b = 0 := by
  refine Nat.le_zero.mp ((blockedUntil_le_iff l b 0).mpr fun w => ?_)
  unfold Ledger.blocked
  cases hf : l.quota.find? (b, w) with
  | none => exact Nat.le_refl 0
  | some r =>
    obtain ⟨hr, hkey⟩ := Table.find?_eq_some.mp hf
    refine le_of_not_gt fun hpos => h (List.mem_dedup.mpr (List.mem_map.mpr ⟨r, ?_, ?_⟩))
    · exact List.mem_filter.mpr ⟨hr, decide_eq_true hpos⟩
    · exact congrArg Prod.fst hkey

theorem nextAt_promote (l : Ledger) (b : Account) :
    l.promote.nextAt b = max (l.nextAt b) (l.blockedUntil b) := by
  unfold Ledger.promote
  rw [(floors_foldl_recordFloor l.blockedUntil _ l (List.nodup_dedup _) b).1]
  split
  · rfl
  · rename_i hnot
    rw [blockedUntil_eq_zero hnot, Nat.max_zero]

theorem cooldown_promote (l : Ledger) (t : Instant) (b : Account) :
    (l.promote.cooldown.find? b).filter (fun c => decide (t < c.notBefore)) =
      (some (floored b (l.blockedUntil b) .quotaBlock (l.cooldown.find? b))).filter
        fun c => decide (t < c.notBefore) := by
  unfold Ledger.promote
  rw [(floors_foldl_recordFloor l.blockedUntil _ l (List.nodup_dedup _) b).2]
  split
  · rfl
  · rename_i hnot
    rw [blockedUntil_eq_zero hnot, floored_of_le (Nat.zero_le t)]

theorem SameFloors.promote {t : Instant} {s l : Ledger} (h : SameFloors t s l)
    (hblocked : ∀ a, max t (s.blockedUntil a) = max t (l.blockedUntil a)) :
    SameFloors t s.promote l.promote := by
  constructor
  · intro b
    rw [nextAt_promote, nextAt_promote, ← max_assoc, ← max_assoc, h.pacing, max_right_comm,
      max_right_comm _ (l.nextAt b), hblocked]
  · intro b
    rw [cooldown_promote, cooldown_promote]
    rcases eq_or_le_of_max_eq (hblocked b) with heq | ⟨hs, hl⟩
    · rw [heq]
      exact floored_congr (fun r hr => (Table.find?_eq_some.mp hr).2)
        (fun r hr => (Table.find?_eq_some.mp hr).2) (h.cooldown b)
    · rw [floored_of_le hs, floored_of_le hl]
      exact h.cooldown b

/-! ## Windows that still matter -/

/-- Windows within the retention are the same, and so are the blocks that have not passed. -/
structure SameQuota (p : Prune) (s l : Ledger) : Prop where
  current : ∀ a w, p.cutoffDay ≤ w.date → s.quota.find? (a, w) = l.quota.find? (a, w)
  blocked : ∀ a w, max p.now (s.blocked a w) = max p.now (l.blocked a w)

section Windows
variable {p : Prune} {s l : Ledger} {now : Instant}

theorem SameQuota.blockedUntil (h : SameQuota p s l) (a : Account) :
    max p.now (s.blockedUntil a) = max p.now (l.blockedUntil a) := by
  refine eq_of_forall_ge_iff fun x => ?_
  rw [max_le_iff, max_le_iff, blockedUntil_le_iff, blockedUntil_le_iff]
  refine and_congr_right fun hx => forall_congr' fun w => ?_
  have hw : max p.now (s.blocked a w) ≤ x ↔ max p.now (l.blocked a w) ≤ x := by rw [h.blocked]
  rw [max_le_iff, max_le_iff] at hw
  exact ⟨fun hs => (hw.mp ⟨hx, hs⟩).2, fun hl => (hw.mpr ⟨hx, hl⟩).2⟩

theorem blocked_charge (l : Ledger) (account : Account) (w : Window) (requests bytes : Nat)
    (a : Account) (w' : Window) :
    (l.charge account w requests bytes).blocked a w' = l.blocked a w' := by
  unfold Ledger.blocked Ledger.charge
  rw [Ledger.find?_addRow]
  split
  · cases l.quota.find? (a, w') with
    | none => rfl
    | some r => exact Nat.max_zero _
  · rfl

theorem SameQuota.charge (h : SameQuota p s l) (account : Account) (w : Window)
    (requests bytes : Nat) :
    SameQuota p (s.charge account w requests bytes) (l.charge account w requests bytes) := by
  constructor
  · intro a w' hw
    unfold Ledger.charge
    rw [Ledger.find?_addRow, Ledger.find?_addRow, h.current a w' hw]
  · intro a w'
    rw [blocked_charge, blocked_charge]
    exact h.blocked a w'

/-- The windows of an instant after the prune are within the retention. -/
theorem cutoffDay_le (h : p.now ≤ now) :
    p.cutoffDay ≤ (windows now).1.date ∧ p.cutoffDay ≤ (windows now).2.date := by
  have hday : p.cutoffDay ≤ now / day :=
    Nat.div_le_div_right (p.cutoff_le.trans h)
  have hminute : now / minute * minute / day = now / day := by
    have hsplit : day = minute * 1440 := by decide
    have hpos : 0 < minute := by decide
    rw [hsplit, Nat.mul_comm (now / minute), Nat.mul_div_mul_left _ _ hpos, Nat.div_div_eq_div_mul]
  exact ⟨hday, le_of_le_of_eq hday hminute.symm⟩

end Windows

end FinDB.Fetcher
