import FinDB.Fetcher.Retention

/-! # What a reservation costs

A reservation is one transaction with one exception raised after it. The minute is
checked before the charges and again between them; the charges in between touch other
rows, so the second check answers like the first. -/
namespace FinDB.Fetcher
open FinDB.Lib

section
variable (r : Reservation) (now : Instant) (l : Ledger)

/-- The ledger with the allocation charged, when there is one. -/
def Reservation.allocated (daily : Window) : Ledger :=
  r.allocation.elim l fun name =>
    l.charge (allocationAccount r.account name) daily r.requests r.byteCount

/-- The rows of the day and the minute, which may be new. -/
def Reservation.rows : Ledger :=
  (l.charge r.account (windows now).1 0 0).charge r.account (windows now).2 0 0

/-- Everything a grant writes. -/
def Reservation.grant : Ledger :=
  (((r.allocated (r.rows now l) (windows now).1).charge r.account (windows now).1 r.requests
    r.byteCount).charge r.account (windows now).2 r.requests 0).recordFloor r.account
      (now + r.interval) .pacing

end

/-! ## Charges -/

section
variable {r : Reservation} {now : Instant} {l : Ledger} {account : Account} {w : Window}

theorem amount_charge {g : QuotaRow → Nat} (hg : Ledger.Counter g) (l : Ledger) (account : Account)
    (w : Window) (requests bytes : Nat) (other : Account) (w' : Window) :
    (l.charge account w requests bytes).amount g other w' = l.amount g other w' +
      if account = other ∧ w = w' then g ⟨account, w, requests, bytes, 0⟩ else 0 := by
  unfold Ledger.charge
  rw [Ledger.amount_addRow _ hg]
  simp only [QuotaRow.key, Prod.mk.injEq]

theorem find?_charge (l : Ledger) {account other : Account} {w w' : Window} {requests bytes : Nat}
    (h : (account, w) ≠ (other, w')) :
    (l.charge account w requests bytes).quota.find? (other, w') = l.quota.find? (other, w') := by
  unfold Ledger.charge
  rw [Ledger.find?_addRow]
  exact if_neg h

/-- The name of an allocation is longer than its account's. -/
theorem allocationAccount_ne (account allocation : List Char) :
    allocationAccount account allocation ≠ account := by
  intro h
  have hlen := congrArg List.length h
  simp [allocationAccount] at hlen

theorem windows_ne (now : Instant) : (windows now).1 ≠ (windows now).2 := by
  simp [windows]

theorem blocked_allocated (daily : Window) (other : Account) (w : Window) :
    (r.allocated l daily).blocked other w = l.blocked other w := by
  unfold Reservation.allocated
  cases r.allocation with
  | none => rfl
  | some name => exact blocked_charge ..

theorem amount_allocated {g : QuotaRow → Nat} (hg : Ledger.Counter g) (daily w : Window) :
    (r.allocated l daily).amount g r.account w = l.amount g r.account w := by
  unfold Reservation.allocated
  cases r.allocation with
  | none => rfl
  | some name =>
    rw [Option.elim_some, amount_charge hg, if_neg fun h => allocationAccount_ne _ _ h.1]
    exact Nat.add_zero _

/-- Charges leave the floors alone. -/
theorem floors_allocated {daily : Window} {requests bytes requests' bytes' : Nat} {w w' : Window}
    (account : Account) :
    (((r.allocated (r.rows now l) daily).charge r.account w requests bytes).charge r.account w'
        requests' bytes').nextAt account = l.nextAt account ∧
      (((r.allocated (r.rows now l) daily).charge r.account w requests bytes).charge r.account w'
        requests' bytes').notBefore account = l.notBefore account := by
  unfold Reservation.allocated
  cases r.allocation <;> exact ⟨rfl, rfl⟩

/-- A minute is as full after charges elsewhere. -/
theorem minuteFull_congr {l' : Ledger} (hblocked : l'.blocked r.account w = l.blocked r.account w)
    (hused : l'.used r.account w = l.used r.account w) :
    r.minuteFull now l' w = r.minuteFull now l w := by
  unfold Reservation.minuteFull
  rw [hblocked, hused]

/-- **The second look at the minute.** Between the two checks only the day and the
allocation are charged. -/
theorem minuteFull_charged :
    r.minuteFull now ((r.allocated l (windows now).1).charge r.account (windows now).1 r.requests
      r.byteCount) (windows now).2 = r.minuteFull now l (windows now).2 := by
  refine minuteFull_congr ?_ ?_
  · rw [blocked_charge, blocked_allocated]
  · change Ledger.amount _ (·.requests) _ _ = _
    rw [amount_charge Ledger.counter_requests, amount_allocated Ledger.counter_requests,
      if_neg fun h => windows_ne now h.2]
    exact Nat.add_zero _

/-! ## One call -/

theorem allocate_ok {daily : Window} {l' : Ledger} (h : r.allocate daily l = .ok l') :
    l' = r.allocated l daily ∧ ∀ name, r.allocation = some name →
      l.used (allocationAccount r.account name) daily + r.requests ≤ r.allocationRequestLimit ∧
      l.usedBytes (allocationAccount r.account name) daily + r.byteCount ≤
        r.allocationByteLimit := by
  unfold Reservation.allocate at h
  unfold Reservation.allocated
  cases hname : r.allocation with
  | none =>
    rw [hname] at h
    cases h
    exact ⟨rfl, fun name hn => by cases hn⟩
  | some name =>
    rw [hname] at h
    obtain ⟨_, hlimits, h⟩ := ok_bind h
    simp only [ensure_ok, Bool.and_eq_true, decide_eq_true_iff] at hlimits
    refine ⟨ok_pure h, fun name' hn => ?_⟩
    cases hn
    exact hlimits

/-- The windows have room for the reservation. -/
structure Reservation.Room (r : Reservation) (now : Instant) (l : Ledger) : Prop where
  day : r.dayFull now l (windows now).1 = false
  minute : r.minuteFull now l (windows now).2 = false
  allocation : ∀ name, r.allocation = some name →
    l.used (allocationAccount r.account name) (windows now).1 + r.requests ≤
      r.allocationRequestLimit ∧
    l.usedBytes (allocationAccount r.account name) (windows now).1 + r.byteCount ≤
      r.allocationByteLimit

theorem take_ok {l' : Ledger} {granted : Granted} (h : r.take now l = .ok (l', granted)) :
    l' = r.grant now l ∧ granted.wait = 0 ∧ r.Room now (r.rows now l) := by
  unfold Reservation.take at h
  obtain ⟨_, hday, h⟩ := ok_bind h
  obtain ⟨_, hminute, h⟩ := ok_bind h
  obtain ⟨charged, hallocate, h⟩ := ok_bind h
  obtain ⟨rfl, hallocation⟩ := allocate_ok (plain_ok.mp hallocate)
  unfold Reservation.spend at h
  obtain ⟨_, _, h⟩ := ok_bind h
  cases ok_pure h
  rw [plain_ok, ensure_ok, Bool.not_eq_true'] at hday hminute
  exact ⟨rfl, rfl, hday, hminute, hallocation⟩

/-- **A refusal rolls back.** The one that would come after the commit needs a minute
that fills up between its two checks. -/
theorem take_error {e : Raised QuotaBlocked Ledger} (h : r.take now l = .error e) :
    e.kept = none := by
  unfold Reservation.take at h
  rcases error_bind h with h | ⟨_, _, h⟩
  · exact plain_error h
  · rcases error_bind h with h | ⟨_, hminute, h⟩
    · exact plain_error h
    · rcases error_bind h with h | ⟨charged, hallocate, h⟩
      · exact plain_error h
      · obtain ⟨rfl, _⟩ := allocate_ok (plain_ok.mp hallocate)
        unfold Reservation.spend at h
        rcases error_bind h with h | ⟨_, _, h⟩
        · -- the second check sees the minute of the first
          exfalso
          rw [plain_ok, ensure_ok] at hminute
          rw [minuteFull_charged, hminute] at h
          cases h
        · cases h

/-! ## What a grant writes -/

/-- A column that a new row leaves at nothing. -/
theorem amount_rows {g : QuotaRow → Nat} (hg : Ledger.Counter g)
    (hnew : ∀ account w, g ⟨account, w, 0, 0, 0⟩ = 0) (account : Account) (w : Window) :
    (r.rows now l).amount g account w = l.amount g account w := by
  unfold Reservation.rows
  rw [amount_charge hg, amount_charge hg, hnew, hnew, ite_self, ite_self]
  rfl

theorem amount_grant_eq (g : QuotaRow → Nat) (account : Account) (w : Window) :
    (r.grant now l).amount g account w =
      (((r.allocated (r.rows now l) (windows now).1).charge r.account (windows now).1 r.requests
        r.byteCount).charge r.account (windows now).2 r.requests 0).amount g account w := rfl

theorem amount_grant {g : QuotaRow → Nat} (hg : Ledger.Counter g)
    (hnew : ∀ account w, g ⟨account, w, 0, 0, 0⟩ = 0) (w : Window) :
    (r.grant now l).amount g r.account w = l.amount g r.account w +
      (if (windows now).1 = w then g ⟨r.account, (windows now).1, r.requests, r.byteCount, 0⟩
        else 0) +
      if (windows now).2 = w then g ⟨r.account, (windows now).2, r.requests, 0, 0⟩ else 0 := by
  rw [amount_grant_eq, amount_charge hg, amount_charge hg, amount_allocated hg, amount_rows hg hnew]
  simp only [true_and]

theorem amount_grant_allocation {g : QuotaRow → Nat} (hg : Ledger.Counter g)
    (hnew : ∀ account w, g ⟨account, w, 0, 0, 0⟩ = 0) {name : List Char}
    (hname : r.allocation = some name) :
    (r.grant now l).amount g (allocationAccount r.account name) (windows now).1 =
      l.amount g (allocationAccount r.account name) (windows now).1 +
        g ⟨allocationAccount r.account name, (windows now).1, r.requests, r.byteCount, 0⟩ := by
  have hne : r.account ≠ allocationAccount r.account name := (allocationAccount_ne _ _).symm
  rw [amount_grant_eq, amount_charge hg, amount_charge hg, if_neg (not_and_of_not_left _ hne),
    if_neg (not_and_of_not_left _ hne)]
  unfold Reservation.allocated
  rw [hname, Option.elim_some, amount_charge hg, amount_rows hg hnew, if_pos (And.intro rfl rfl)]
  rfl

/-- The rows that a reservation may charge. -/
def Reservation.charges (r : Reservation) (now : Instant) (account : Account) (w : Window) : Prop :=
  (account = r.account ∧ (w = (windows now).1 ∨ w = (windows now).2)) ∨
    ∃ name, r.allocation = some name ∧ account = allocationAccount r.account name ∧
      w = (windows now).1

theorem find?_grant {account : Account} {w : Window} (h : ¬ r.charges now account w) :
    (r.grant now l).quota.find? (account, w) = l.quota.find? (account, w) := by
  have hday : (r.account, (windows now).1) ≠ (account, w) := by
    intro he
    cases he
    exact h (Or.inl ⟨rfl, Or.inl rfl⟩)
  have hminute : (r.account, (windows now).2) ≠ (account, w) := by
    intro he
    cases he
    exact h (Or.inl ⟨rfl, Or.inr rfl⟩)
  have hallocated : ∀ l : Ledger, (r.allocated l (windows now).1).quota.find? (account, w) =
      l.quota.find? (account, w) := by
    intro l
    unfold Reservation.allocated
    cases hname : r.allocation with
    | none => rfl
    | some name =>
      refine find?_charge l fun he => ?_
      cases he
      exact h (Or.inr ⟨name, hname, rfl, rfl⟩)
  unfold Reservation.grant Reservation.rows
  change Table.find? (Ledger.charge _ _ _ _ _).quota _ = _
  rw [find?_charge _ hminute, find?_charge _ hday, hallocated, find?_charge _ hminute,
    find?_charge _ hday]

/-- What a granted reservation leaves. -/
structure Charged (r : Reservation) (now : Instant) (l l' : Ledger) : Prop where
  day : l'.used r.account (windows now).1 = l.used r.account (windows now).1 + r.requests
  dayBytes : l'.usedBytes r.account (windows now).1 =
    l.usedBytes r.account (windows now).1 + r.byteCount
  minute : l'.used r.account (windows now).2 = l.used r.account (windows now).2 + r.requests
  minuteBytes : l'.usedBytes r.account (windows now).2 = l.usedBytes r.account (windows now).2
  allocation : ∀ name, r.allocation = some name →
    l'.used (allocationAccount r.account name) (windows now).1 =
      l.used (allocationAccount r.account name) (windows now).1 + r.requests ∧
    l'.usedBytes (allocationAccount r.account name) (windows now).1 =
      l.usedBytes (allocationAccount r.account name) (windows now).1 + r.byteCount
  others : ∀ account w, ¬ r.charges now account w →
    l'.quota.find? (account, w) = l.quota.find? (account, w)
  floor : now + r.interval ≤ l'.nextAt r.account
  otherFloors : ∀ account, account ≠ r.account →
    l'.nextAt account = l.nextAt account ∧ l'.notBefore account = l.notBefore account
  requestLimit : ∀ n, r.requestLimit = some n → l'.used r.account (windows now).1 ≤ n
  byteLimit : ∀ n, r.byteLimit = some n → l'.usedBytes r.account (windows now).1 ≤ n
  minuteLimit : ∀ n, r.minuteLimit = some n → l'.used r.account (windows now).2 ≤ n
  allocationLimits : ∀ name, r.allocation = some name →
    l'.used (allocationAccount r.account name) (windows now).1 ≤ r.allocationRequestLimit ∧
    l'.usedBytes (allocationAccount r.account name) (windows now).1 ≤ r.allocationByteLimit

theorem charged_grant (hroom : r.Room now (r.rows now l)) : Charged r now l (r.grant now l) := by
  have hrequests : ∀ account w, (r.rows now l).used account w = l.used account w :=
    amount_rows Ledger.counter_requests fun _ _ => rfl
  have hbytes : ∀ account w, (r.rows now l).usedBytes account w = l.usedBytes account w :=
    amount_rows Ledger.counter_bytes fun _ _ => rfl
  have hday : (r.grant now l).used r.account (windows now).1 =
      l.used r.account (windows now).1 + r.requests := by
    have h := @amount_grant r now l _ Ledger.counter_requests (fun _ _ => rfl)
      (windows now).1
    rwa [if_pos rfl, if_neg (windows_ne now).symm] at h
  have hdayBytes : (r.grant now l).usedBytes r.account (windows now).1 =
      l.usedBytes r.account (windows now).1 + r.byteCount := by
    have h := @amount_grant r now l _ Ledger.counter_bytes (fun _ _ => rfl)
      (windows now).1
    rwa [if_pos rfl, if_neg (windows_ne now).symm] at h
  have hminute : (r.grant now l).used r.account (windows now).2 =
      l.used r.account (windows now).2 + r.requests := by
    have h := @amount_grant r now l _ Ledger.counter_requests (fun _ _ => rfl)
      (windows now).2
    rwa [if_neg (windows_ne now), if_pos rfl] at h
  have hallocation : ∀ name, r.allocation = some name →
      (r.grant now l).used (allocationAccount r.account name) (windows now).1 =
        l.used (allocationAccount r.account name) (windows now).1 + r.requests ∧
      (r.grant now l).usedBytes (allocationAccount r.account name) (windows now).1 =
        l.usedBytes (allocationAccount r.account name) (windows now).1 + r.byteCount :=
    fun name hname => ⟨amount_grant_allocation Ledger.counter_requests (fun _ _ => rfl) hname,
      amount_grant_allocation Ledger.counter_bytes (fun _ _ => rfl) hname⟩
  have hfull := hroom.day
  unfold Reservation.dayFull at hfull
  simp only [Bool.or_eq_false_iff, hrequests, hbytes] at hfull
  have hfullMinute := hroom.minute
  unfold Reservation.minuteFull at hfullMinute
  simp only [Bool.or_eq_false_iff, hrequests] at hfullMinute
  refine
    { day := hday
      dayBytes := hdayBytes
      minute := hminute
      minuteBytes := ?_
      allocation := hallocation
      others := fun account w => find?_grant
      floor := ?_
      otherFloors := ?_
      requestLimit := ?_
      byteLimit := ?_
      minuteLimit := ?_
      allocationLimits := ?_ }
  · have h := @amount_grant r now l _ Ledger.counter_bytes (fun _ _ => rfl)
      (windows now).2
    rwa [if_neg (windows_ne now), if_pos rfl] at h
  · unfold Reservation.grant
    rw [Ledger.nextAt_recordFloor, if_pos rfl]
    exact le_max_right _ _
  · intro account hne
    unfold Reservation.grant
    rw [Ledger.nextAt_recordFloor, if_neg hne.symm, Ledger.notBefore_recordFloor, if_neg hne.symm]
    exact floors_allocated account
  · intro n hn
    rw [hday]
    simpa [hn] using hfull.1.2
  · intro n hn
    rw [hdayBytes]
    have hroom := hfull.2
    simp only [hn, Option.any_some, Bool.or_eq_false_iff, decide_eq_false_iff_not, not_lt] at hroom
    exact hroom.2
  · intro n hn
    rw [hminute]
    simpa [hn] using hfullMinute.2
  · intro name hname
    rw [(hallocation name hname).1, (hallocation name hname).2, ← hrequests, ← hbytes]
    exact hroom.allocation name hname

/-- **A reservation is free or charged once.** It raises and rolls back, it waits and
writes nothing, or it is granted with every row charged. -/
theorem reserve_charges_once (r : Reservation) (now : Instant) (l : Ledger) :
    match reserveAcquisition r now l with
    | .error e => e.kept = none ∧ (l.call (.reserve now r)).1 = l
    | .ok (l', granted) => (0 < granted.wait ∧ l' = l) ∨ (granted.wait = 0 ∧ Charged r now l l') := by
  split
  · rename_i e herror
    suffices hkept : e.kept = none by
      refine ⟨hkept, ?_⟩
      simp only [Ledger.call, herror, hkept, Option.getD_none]
    have h := herror
    unfold reserveAcquisition at h
    rcases error_bind h with h | ⟨_, _, h⟩
    · exact plain_error h
    · rcases error_bind h with h | ⟨_, _, h⟩
      · exact plain_error h
      · split at h
        · cases h
        · exact take_error h
  · rename_i l' granted h
    unfold reserveAcquisition at h
    obtain ⟨_, _, h⟩ := ok_bind h
    obtain ⟨_, _, h⟩ := ok_bind h
    split at h
    · rename_i hlt
      cases ok_pure h
      exact Or.inl ⟨Nat.sub_pos_of_lt hlt, rfl⟩
    · obtain ⟨rfl, hwait, hroom⟩ := take_ok h
      exact Or.inr ⟨hwait, charged_grant hroom⟩

/-- The first request of a day on an account with room for it. -/
example : (reserveAcquisition ⟨['a'], second, 1, 10, some 5, some 100, some 1, true, some ['b'], 5, 50⟩
    day Ledger.empty).toOption.map (·.2) = some ⟨0, 0, 1, .day 1⟩ := by decide

end

end FinDB.Fetcher
