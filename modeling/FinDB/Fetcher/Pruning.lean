import FinDB.Fetcher.Retention

/-! # Pruning is unobservable

The pruned ledger and the full one are related by what has been dropped so far: idle
intents that are no logins and carry no samples, windows past the retention, floors
and blocks that have passed. Every call keeps the relation and answers alike on both
sides, and every batch keeps it on the pruned one. -/
namespace FinDB.Fetcher
open FinDB.Lib

/-! ## The pruned ledger and the full one -/

/-- Only operations of Shioaji log in or are sampled. -/
def Ledger.Genuine (l : Ledger) : Prop :=
  ∀ i ∈ l.intents, i.provider ≠ .shioaji →
    i.loginUnits = 0 ∧ ∀ u ∈ l.usage, u.operationId ≠ i.operationId

/-- `s` is `l` without some idle intents (`dropped`) and past windows. `live` are the
operations that the consumers still speak for. -/
structure Agree (p : Prune) (live : Uuid → Prop) (dropped : Uuid → Bool) (s l : Ledger) :
    Prop where
  intents : s.intents = l.intents.delete fun i => dropped i.operationId
  idle : ∀ i ∈ l.intents, dropped i.operationId = true → p.idle i = true ∧ i.loginUnits = 0
  unused : ∀ k, dropped k = true → ¬ live k
  usage : s.usage = l.usage
  unsampled : ∀ u ∈ l.usage, dropped u.operationId = false
  /-- What a later batch may drop. -/
  quiet : ∀ i ∈ l.intents, p.idle i = true → i.account ∉ p.retained →
    i.loginUnits = 0 ∧ ∀ u ∈ l.usage, u.operationId ≠ i.operationId
  strange : ∀ i ∈ l.intents, p.idle i = true → ¬ live i.operationId
  violations : s.violations = l.violations
  quota : SameQuota p s l
  floors : SameFloors p.now s l

/-- A login is one of Shioaji, and so is an operation that is sampled. -/
def Call.genuine (l : Ledger) : Call → Prop
  | .prepare _ op _ => op.provider ≠ .shioaji →
    op.kind.loginUnits = 0 ∧ ∀ u ∈ l.usage, u.operationId ≠ op.operationId
  | .usage op _ => ∀ i ∈ l.intents, i.operationId = op.operationId → i.provider = .shioaji
  | _ => True

section Genuine
variable {l l' : Ledger} {op : Operation} {now : Instant}

theorem Ledger.Genuine.of_rows (h : l.Genuine) (husage : l'.usage = l.usage)
    (hrows : ∀ i' ∈ l'.intents, ∃ i ∈ l.intents, i'.provider = i.provider ∧
      i'.loginUnits = i.loginUnits ∧ i'.operationId = i.operationId) : l'.Genuine := by
  intro i' hi' hne
  obtain ⟨i, hi, hprovider, hlogin, hid⟩ := hrows i' hi'
  rw [hprovider] at hne
  rw [hlogin, hid, husage]
  exact h i hi hne

theorem Ledger.Genuine.update (h : l.Genuine) {q : Intent → Bool} {f : Intent → Intent}
    (hf : ∀ i, (f i).operationId = i.operationId)
    (hsame : ∀ i, (f i).provider = i.provider ∧ (f i).loginUnits = i.loginUnits)
    (husage : l'.usage = l.usage) (hintents : l'.intents = l.intents.update q f hf) :
    l'.Genuine := by
  refine h.of_rows husage fun i' hi' => ?_
  rw [hintents] at hi'
  obtain ⟨i, hi, rfl⟩ := Table.mem_update.mp hi'
  refine ⟨i, hi, ?_⟩
  split
  · exact ⟨(hsame i).1, (hsame i).2, hf i⟩
  · exact ⟨rfl, rfl, rfl⟩

theorem Ledger.Genuine.arm (h : l.Genuine) (hop : op.provider ≠ .shioaji →
    op.kind.loginUnits = 0 ∧ ∀ u ∈ l.usage, u.operationId ≠ op.operationId) :
    (l.arm op now).Genuine := by
  intro i' hi' hne
  rcases mem_arm hi' with ⟨hold, _⟩ | rfl | ⟨i, hi, _, rfl⟩
  · exact h i' hold hne
  · exact hop hne
  · exact h i hi hne

/-- A reservation only charges and paces. -/
theorem reserve_frame (l : Ledger) (now : Instant) (r : Reservation) :
    (l.call (.reserve now r)).1.intents = l.intents ∧
    (l.call (.reserve now r)).1.usage = l.usage := by
  have hspend : ∀ (before : Nat) (s : Ledger), s.intents = l.intents ∧ s.usage = l.usage →
      (∀ s' g, r.spend now before s = .ok (s', g) → s'.intents = l.intents ∧ s'.usage = l.usage) ∧
      ∀ e, r.spend now before s = .error e →
        (e.kept.getD l).intents = l.intents ∧ (e.kept.getD l).usage = l.usage := by
    intro before s hs
    unfold Reservation.spend ensureOrKeep
    simp only
    split
    · exact ⟨fun s' g h => (by cases h; exact hs), fun e h => (by cases h)⟩
    · exact ⟨fun s' g h => (by cases h), fun e h => (by cases h; exact hs)⟩
  have htake : (∀ s' g, r.take now l = .ok (s', g) → s'.intents = l.intents ∧ s'.usage = l.usage) ∧
      ∀ e, r.take now l = .error e →
        (e.kept.getD l).intents = l.intents ∧ (e.kept.getD l).usage = l.usage := by
    unfold Reservation.take
    simp only
    cases r.dayFull now ((l.charge r.account (windows now).1 0 0).charge r.account
      (windows now).2 0 0) (windows now).1 with
    | true => exact ⟨fun s' g h => (by cases h), fun e h => (by cases h; exact ⟨rfl, rfl⟩)⟩
    | false =>
      cases r.minuteFull now ((l.charge r.account (windows now).1 0 0).charge r.account
        (windows now).2 0 0) (windows now).2 with
      | true => exact ⟨fun s' g h => (by cases h), fun e h => (by cases h; exact ⟨rfl, rfl⟩)⟩
      | false =>
        cases hall : r.allocate (windows now).1 ((l.charge r.account (windows now).1 0 0).charge
          r.account (windows now).2 0 0) with
        | error e => exact ⟨fun s' g h => (by cases h), fun e h => (by cases h; exact ⟨rfl, rfl⟩)⟩
        | ok s =>
          refine hspend _ s ?_
          unfold Reservation.allocate at hall
          split at hall
          · cases hall
            exact ⟨rfl, rfl⟩
          · obtain ⟨_, _, hall⟩ := ok_bind hall
            cases ok_pure hall
            exact ⟨rfl, rfl⟩
  simp only [Ledger.call]
  unfold reserveAcquisition
  cases r.valid with
  | false => exact ⟨rfl, rfl⟩
  | true =>
    cases r.enforceCapacity && l.violations.contains r.account with
    | true => exact ⟨rfl, rfl⟩
    | false =>
      by_cases hwait : now < l.nextAt r.account
      · rw [if_pos hwait]
        exact ⟨rfl, rfl⟩
      · rw [if_neg hwait]
        cases ht : r.take now l with
        | error e => exact htake.2 e ht
        | ok g => exact htake.1 g.1 g.2 ht

/-- **The ledgers of the governor are genuine**, at any clock. -/
theorem Ledger.Genuine.call (h : l.Genuine) {c : Call} (hc : c.genuine l) : (l.call c).1.Genuine := by
  cases c with
  | open_ =>
    simp only [Ledger.call, Ledger.opened, Ledger.promote]
    rw [foldl_recordFloor_eq, promotePacing_eq]
    exact h
  | enter now op =>
    simp only [Ledger.call, recover_eq]
    by_cases hall : (l.intentsOf op.account .armed).all (fun i => decide (i.armedAt ≤ now)) = true
    · rw [if_pos hall]
      simp only
      rw [foldl_recoveryFloor_eq]
      exact h.update (Intent.lapse_id now) (fun _ => ⟨rfl, rfl⟩) rfl rfl
    · rw [if_neg hall]
      exact h
  | prepare now op publishes =>
    simp only [Ledger.call]
    split
    · rename_i hp
      rcases prepareTurn_cases (prepare_ok hp) with ⟨rfl, _⟩ | ⟨_, _, _, rfl, _⟩
      · exact h
      · exact h.arm hc
    · rename_i hp
      rcases prepareTurn_cases (prepare_ok hp) with ⟨rfl, _⟩ | ⟨_, _, _, rfl, _⟩
      · exact h
      · exact h.arm hc
    · rename_i r hp
      cases hk : r.kept with
      | none => exact h
      | some k =>
        rcases prepare_kept hp hk with rfl | rfl
        · exact h
        · exact h.arm hc
  | usage op u =>
    intro i hi hne
    obtain ⟨hlogin, hnone⟩ := h i hi hne
    refine ⟨hlogin, fun u' hu' hid => ?_⟩
    rcases mem_sample hu' with hold | hid'
    · exact hnone u' hold hid
    · exact hne (hc i hi (hid.symm.trans hid'))
  | rateLimited now op delay => exact h
  | finish now op startedAt possiblyStarted outcome =>
    simp only [Ledger.call]
    split
    · rename_i l' hfin
      rcases finalize_cases hfin with rfl | ⟨_, ⟨_, _, rfl⟩ | ⟨_, _, rfl⟩ | ⟨t, _, _, rfl⟩⟩
      · exact h
      · exact h.update (Intent.lapse_id now) (fun _ => ⟨rfl, rfl⟩) rfl rfl
      · exact h.update (Intent.cancel_id now) (fun _ => ⟨rfl, rfl⟩) rfl rfl
      · have hcharged : (l.chargeStart op t).Genuine := by
          refine h.of_rows ?_ fun i hi => ⟨i, Ledger.chargeStart_intents l op t ▸ hi, rfl, rfl, rfl⟩
          unfold Ledger.chargeStart
          split <;> rfl
        exact hcharged.update (Intent.settle_id t now outcome) (fun _ => ⟨rfl, rfl⟩) rfl rfl
    · exact h
  | reserve now r =>
    obtain ⟨hintents, husage⟩ := reserve_frame l now r
    exact h.of_rows husage fun i hi => ⟨i, hintents ▸ hi, rfl, rfl, rfl⟩

end Genuine

section Agreement
variable {p : Prune} {live : Uuid → Prop} {dropped : Uuid → Bool} {s l : Ledger} {now : Instant}

theorem idle_of_open {i : Intent} (h : i.status.open_ = true) : p.idle i = false := by
  simp [Prune.idle, h]

/-- A row that was settled after the prune is not idle. -/
theorem idle_of_completed {i : Intent} (h : p.now ≤ now) (hc : i.completedAt = some now) :
    p.idle i = false := by
  have hnot : ¬ now < p.cutoff := not_lt.mpr (p.cutoff_le.trans h)
  unfold Prune.idle
  rw [hc, Option.any_some, decide_eq_false hnot, Bool.and_false]

theorem Agree.recordFloor (h : Agree p live dropped s l) (a : Account) (u : Instant)
    (reason : FloorReason) :
    Agree p live dropped (s.recordFloor a u reason) (l.recordFloor a u reason) :=
  { h with
    quota := ⟨h.quota.current, h.quota.blocked⟩
    floors := h.floors.recordFloor a u reason }

theorem Agree.charge (h : Agree p live dropped s l) (account : Account) (w : Window)
    (requests bytes : Nat) : Agree p live dropped (s.charge account w requests bytes)
      (l.charge account w requests bytes) :=
  { h with
    quota := h.quota.charge account w requests bytes
    floors := ⟨h.floors.pacing, h.floors.cooldown⟩ }

/-- Intents that are armed may become anything that is not idle. -/
theorem Agree.updateIntents (h : Agree p live dropped s l) {q : Intent → Bool}
    {f : Intent → Intent} (hf : ∀ i, (f i).operationId = i.operationId)
    (hq : ∀ i ∈ l.intents, q i = true → i.status = .armed) (hnew : ∀ i, p.idle (f i) = false) :
    Agree p live dropped { s with intents := s.intents.update q f hf }
      { l with intents := l.intents.update q f hf } := by
  have hold : ∀ i' ∈ l.intents.update q f hf, p.idle i' = true → i' ∈ l.intents := by
    intro i' hi' hidle
    obtain ⟨i, hi, rfl⟩ := Table.mem_update.mp hi'
    split at hidle
    · rw [hnew i] at hidle
      cases hidle
    · rename_i hnq
      rw [if_neg hnq]
      exact hi
  refine { h with
    intents := ?_, idle := ?_, quiet := ?_, strange := ?_
    quota := ⟨h.quota.current, h.quota.blocked⟩
    floors := ⟨h.floors.pacing, h.floors.cooldown⟩ }
  · change s.intents.update q f hf = _
    rw [h.intents]
    exact Table.delete_update.symm
  · intro i' hi' hd
    have hi' : i' ∈ l.intents.update q f hf := hi'
    obtain ⟨i, hi, rfl⟩ := Table.mem_update.mp hi'
    split at hd
    · rename_i hqi
      rw [hf i] at hd
      have hidle := (h.idle i hi hd).1
      rw [idle_of_open (by rw [hq i hi hqi]; rfl)] at hidle
      cases hidle
    · rename_i hnq
      rw [if_neg hnq]
      exact h.idle i hi hd
  · exact fun i' hi' hidle => h.quiet i' (hold i' hi' hidle) hidle
  · exact fun i' hi' hidle => h.strange i' (hold i' hi' hidle) hidle

/-- Open intents are all kept. -/
theorem Agree.intentsOf (h : Agree p live dropped s l) (account : Account) {status : IntentStatus}
    (ho : status.open_ = true) : s.intentsOf account status = l.intentsOf account status := by
  unfold Ledger.intentsOf
  rw [h.intents]
  simp only [Table.delete]
  rw [List.filter_filter]
  refine List.filter_congr fun i hi => ?_
  cases hd : dropped i.operationId with
  | false => simp
  | true =>
    have hidle := (h.idle i hi hd).1
    have hne : i.status ≠ status := by
      rintro rfl
      rw [idle_of_open ho] at hidle
      cases hidle
    simp [hne]

theorem Agree.find? (h : Agree p live dropped s l) {k : Uuid} (hk : live k) :
    s.intents.find? k = l.intents.find? k := by
  have hd : dropped k = false := by
    cases hd : dropped k with
    | false => rfl
    | true => exact absurd hk (h.unused k hd)
  rw [h.intents, Table.find?_delete]
  cases hf : l.intents.find? k with
  | none => rfl
  | some i => simp [(Table.find?_eq_some.mp hf).2, hd]

/-! ## What the checks read -/

theorem Agree.row (h : Agree p live dropped s l) (hnow : p.now ≤ now) (a : Account) {w : Window}
    (hw : w = (windows now).1 ∨ w = (windows now).2) :
    s.quota.find? (a, w) = l.quota.find? (a, w) := by
  refine h.quota.current a w ?_
  rcases hw with rfl | rfl
  · exact (cutoffDay_le hnow).1
  · exact (cutoffDay_le hnow).2

theorem Agree.liability (h : Agree p live dropped s l) (a : Account) (w : Window) :
    s.liability a w = l.liability a w := by
  unfold Ledger.liability
  rw [h.intentsOf a rfl]

theorem Agree.used (h : Agree p live dropped s l) (hnow : p.now ≤ now) (a : Account) {w : Window}
    (hw : w = (windows now).1 ∨ w = (windows now).2) : s.used a w = l.used a w := by
  unfold Ledger.used
  rw [h.row hnow a hw]

theorem Agree.fits (h : Agree p live dropped s l) (hnow : p.now ≤ now) (op : Operation) :
    (op.limits now).all (fun w => op.fits s w.1 w.2) =
      (op.limits now).all fun w => op.fits l w.1 w.2 := by
  have hfit : ∀ w limit, w = (windows now).1 ∨ w = (windows now).2 →
      op.fits s w limit = op.fits l w limit := by
    intro w limit hw
    unfold Operation.fits
    rw [h.used hnow op.account hw, h.liability]
  unfold Operation.limits
  simp only [List.all_cons, List.all_nil]
  rw [hfit _ _ (Or.inl rfl), hfit _ _ (Or.inr rfl)]

/-- What is left to wait is not changed by what has passed. -/
theorem sub_eq_of_max_eq {t x y : Instant} (h : max t x = max t y) (ht : t ≤ now) :
    x - now = y - now := by
  rcases eq_or_le_of_max_eq h with rfl | ⟨hx, hy⟩
  · rfl
  · rw [Nat.sub_eq_zero_of_le (hx.trans ht), Nat.sub_eq_zero_of_le (hy.trans ht)]

theorem lt_iff_of_max_eq {t x y : Instant} (h : max t x = max t y) (ht : t ≤ now) :
    now < x ↔ now < y := by
  rcases eq_or_le_of_max_eq h with rfl | ⟨hx, hy⟩
  · rfl
  · exact iff_of_false (not_lt.mpr (hx.trans ht)) (not_lt.mpr (hy.trans ht))

theorem Agree.wait (h : Agree p live dropped s l) (hnow : p.now ≤ now) (op : Operation) :
    op.wait now s = op.wait now l := by
  unfold Operation.wait
  split
  · rfl
  · refine sub_eq_of_max_eq ?_ hnow
    rw [← max_assoc, ← max_assoc, h.floors.pacing, max_right_comm, max_right_comm _ (l.nextAt _),
      h.quota.blockedUntil]

theorem Agree.cooldownUntil (h : Agree p live dropped s l) (hnow : p.now ≤ now) (a : Account) :
    now < s.cooldownUntil a ↔ now < l.cooldownUntil a := by
  have hread : ∀ c : Option Cooldown,
      (now < c.elim 0 fun c => if c.reason != .pacing then c.notBefore else 0) ↔
      now < (c.filter fun c => decide (p.now < c.notBefore)).elim 0
        fun c => if c.reason != .pacing then c.notBefore else 0 := by
    intro c
    cases c with
    | none => rfl
    | some r =>
      by_cases hr : p.now < r.notBefore
      · rw [Option.filter_some, if_pos (decide_eq_true hr)]
      · rw [Option.filter_some, if_neg (by simpa using hr)]
        simp only [Option.elim_some, Option.elim_none]
        refine iff_of_false ?_ (Nat.not_lt_zero now)
        split
        · exact not_lt.mpr ((not_lt.mp hr).trans hnow)
        · exact Nat.not_lt_zero now
  unfold Ledger.cooldownUntil
  rw [lt_max_iff, lt_max_iff, lt_iff_of_max_eq (h.quota.blockedUntil a) hnow, hread, h.floors.cooldown,
    ← hread]

theorem Agree.latestUsage (h : Agree p live dropped s l) (a : Account) :
    s.latestUsage a = l.latestUsage a := by
  unfold Ledger.latestUsage
  rw [h.usage]
  congr 1
  refine List.filter_congr fun u hu => ?_
  rw [h.intents, Table.find?_delete]
  cases hf : l.intents.find? u.operationId with
  | none => rfl
  | some i =>
    have hd : dropped i.operationId = false := by
      rw [(Table.find?_eq_some.mp hf).2]
      exact h.unsampled u hu
    simp [hd]

/-- Dropped intents are no logins. -/
theorem Agree.checkLogin (h : Agree p live dropped s l) (op : Operation) :
    checkLogin op now s = checkLogin op now l := by
  have hahead : (s.intents.rows.filter (·.account == op.account)).any
        (fun i => i.loginUnits == 1 && i.ahead now) =
      (l.intents.rows.filter (·.account == op.account)).any
        fun i => i.loginUnits == 1 && i.ahead now := by
    apply Bool.eq_iff_iff.mpr
    rw [h.intents]
    simp only [Table.delete, List.any_eq_true, List.mem_filter, Bool.and_eq_true, beq_iff_eq]
    constructor
    · rintro ⟨i, ⟨⟨hi, _⟩, ha⟩, hlogin⟩
      exact ⟨i, ⟨hi, ha⟩, hlogin⟩
    · rintro ⟨i, ⟨hi, ha⟩, hlogin⟩
      refine ⟨i, ⟨⟨hi, ?_⟩, ha⟩, hlogin⟩
      cases hd : dropped i.operationId with
      | false => rfl
      | true =>
        have hzero := (h.idle i hi hd).2
        rw [hlogin.1] at hzero
        cases hzero
  have hused : (((s.intents.rows.filter (·.account == op.account)).filter fun i =>
        i.operationId != op.operationId && i.recentLogin now).map (·.loginUnits)).sum =
      (((l.intents.rows.filter (·.account == op.account)).filter fun i =>
        i.operationId != op.operationId && i.recentLogin now).map (·.loginUnits)).sum := by
    rw [List.filter_filter, List.filter_filter, Table.sum_filter, Table.sum_filter, h.intents]
    refine Table.total_delete fun i hi hd => ?_
    rw [(h.idle i hi hd).2, ite_self]
  unfold Fetcher.checkLogin
  simp only [hahead, hused, h.latestUsage]

/-! ## One call -/

theorem Agree.promote (h : Agree p live dropped s l) : Agree p live dropped s.promote l.promote := by
  have hfloors := h.floors.promote h.quota.blockedUntil
  unfold Ledger.promote at hfloors ⊢
  rw [foldl_recordFloor_eq, foldl_recordFloor_eq l.blockedUntil] at hfloors ⊢
  exact { h with
    quota := ⟨h.quota.current, h.quota.blocked⟩
    floors := hfloors }

theorem Agree.opened (h : Agree p live dropped s l) : Agree p live dropped s.opened l.opened := by
  have hpaced : Agree p live dropped s.promotePacing l.promotePacing := by
    have hfloors := h.floors.promotePacing
    rw [promotePacing_eq s, promotePacing_eq l] at hfloors ⊢
    exact { h with
      quota := ⟨h.quota.current, h.quota.blocked⟩
      floors := hfloors }
  exact hpaced.promote

theorem Agree.foldl_recoveryFloor (op : Operation) (rows : List Intent) {s l : Ledger}
    (h : Agree p live dropped s l) :
    Agree p live dropped (rows.foldl (recoveryFloor op now) s)
      (rows.foldl (recoveryFloor op now) l) := by
  induction rows generalizing s l with
  | nil => exact h
  | cons i rest ih => exact ih (h.recordFloor op.account _ .unknownRecovery)

theorem Agree.enter (h : Agree p live dropped s l) (op : Operation) :
    (s.call (.enter now op)).2 = (l.call (.enter now op)).2 ∧
      Agree p live dropped (s.call (.enter now op)).1 (l.call (.enter now op)).1 := by
  have hlapsed : Agree p live dropped (s.lapseAll op.recovers now) (l.lapseAll op.recovers now) := by
    refine h.updateIntents (Intent.lapse_id now) (fun i _ hq => ?_) fun i => idle_of_open rfl
    simp only [Operation.recovers, Bool.and_eq_true, beq_iff_eq] at hq
    exact hq.2
  have hrows : s.intentsOf op.account .armed = l.intentsOf op.account .armed :=
    h.intentsOf op.account rfl
  simp only [Ledger.call]
  rw [recover_eq, recover_eq, hrows]
  by_cases hc : (l.intentsOf op.account .armed).all (fun i => decide (i.armedAt ≤ now)) = true
  · rw [if_pos hc, if_pos hc]
    exact ⟨rfl, hlapsed.foldl_recoveryFloor op _⟩
  · rw [if_neg hc, if_neg hc]
    exact ⟨rfl, h⟩

theorem Agree.arm (h : Agree p live dropped s l) {op : Operation} (hk : live op.operationId) :
    Agree p live dropped (s.arm op now) (l.arm op now) := by
  have hold : ∀ i' ∈ (l.arm op now).intents, p.idle i' = true →
      i' ∈ l.intents ∧ i'.operationId ≠ op.operationId := by
    intro i' hi' hidle
    rcases mem_arm hi' with hold | rfl | ⟨i, hi, hid, rfl⟩
    · exact hold
    · rw [idle_of_open rfl] at hidle
      cases hidle
    · exact absurd hk (hid ▸ h.strange i hi hidle)
  have hd : dropped (op.intent now).operationId = false := by
    cases hd : dropped op.operationId with
    | false => exact hd
    | true => exact absurd hk (h.unused _ hd)
  refine { h with
    intents := ?_, idle := ?_, quiet := ?_, strange := ?_
    quota := ⟨h.quota.current, h.quota.blocked⟩
    floors := ⟨h.floors.pacing, h.floors.cooldown⟩ }
  · unfold Ledger.arm
    simp only
    rw [h.intents]
    exact (Table.delete_upsert hd).symm
  · intro i' hi' hdrop
    rcases mem_arm hi' with ⟨hold, _⟩ | rfl | ⟨i, _, hid, rfl⟩
    · exact h.idle i' hold hdrop
    · rw [hd] at hdrop
      cases hdrop
    · rw [Intent.rearm_id, hid] at hdrop
      exact absurd (hd.symm.trans hdrop) Bool.false_ne_true
  · exact fun i' hi' hidle => h.quiet i' (hold i' hi' hidle).1 hidle
  · exact fun i' hi' hidle => h.strange i' (hold i' hi' hidle).1 hidle

/-- A turn of `prepare` refuses, waits and arms alike. -/
theorem Agree.prepareTurn (h : Agree p live dropped s l) (hnow : p.now ≤ now) (op : Operation) :
    (∃ e, prepareTurn op now s = .error e ∧ prepareTurn op now l = .error e) ∨
    (prepareTurn op now s = .ok (s, none) ∧ prepareTurn op now l = .ok (l, none)) ∨
    ∃ q, prepareTurn op now s = .ok (s.arm op now, some q) ∧
      prepareTurn op now l = .ok (l.arm op now, some q) := by
  unfold Fetcher.prepareTurn
  rw [h.wait hnow op]
  split
  · unfold prepareChecked
    rw [h.fits hnow op, h.checkLogin op, h.used hnow op.account (Or.inl rfl)]
    cases hfits : (op.limits now).all fun w => op.fits l w.1 w.2 with
    | false => exact Or.inl ⟨_, rfl, rfl⟩
    | true =>
      split
      · cases Fetcher.checkLogin op now l with
        | error e => exact Or.inl ⟨_, rfl, rfl⟩
        | ok u => exact Or.inr (Or.inr ⟨_, rfl, rfl⟩)
      · exact Or.inr (Or.inr ⟨_, rfl, rfl⟩)
  · exact Or.inr (Or.inl ⟨rfl, rfl⟩)

theorem Agree.prepare (h : Agree p live dropped s l) (hnow : p.now ≤ now) {op : Operation}
    (hk : live op.operationId) (publishes : Bool) :
    (s.call (.prepare now op publishes)).2 = (l.call (.prepare now op publishes)).2 ∧
      Agree p live dropped (s.call (.prepare now op publishes)).1
        (l.call (.prepare now op publishes)).1 := by
  have hcooldown : decide (now < s.cooldownUntil op.account) =
      decide (now < l.cooldownUntil op.account) := decide_eq_decide.mpr (h.cooldownUntil hnow _)
  simp only [Ledger.call, Fetcher.prepare, hcooldown, h.wait hnow op]
  generalize (op.kind != .cleanup && decide (now < l.cooldownUntil op.account) && publishes) = held
  rcases h.prepareTurn hnow op with ⟨e, hs, hl⟩ | ⟨hs, hl⟩ | ⟨q, hs, hl⟩
  · rw [hs, hl]
    exact ⟨rfl, h⟩
  · rw [hs, hl]
    cases held with
    | false => exact ⟨rfl, h⟩
    | true => exact ⟨rfl, h⟩
  · rw [hs, hl]
    cases held with
    | false => exact ⟨rfl, h.arm hk⟩
    | true => exact ⟨rfl, h.arm hk⟩

theorem Agree.sample (h : Agree p live dropped s l) {op : Operation} (hk : live op.operationId)
    (u : Usage) : Agree p live dropped (s.sample op u) (l.sample op u) := by
  refine { h with
    usage := ?_, unsampled := ?_, quiet := ?_
    quota := ⟨h.quota.current, h.quota.blocked⟩
    floors := ⟨h.floors.pacing, h.floors.cooldown⟩ }
  · unfold Ledger.sample
    rw [h.usage]
  · intro u' hu'
    rcases mem_sample hu' with hold | hid
    · exact h.unsampled u' hold
    · cases hd : dropped u'.operationId with
      | false => rfl
      | true => exact absurd hk (hid ▸ h.unused _ hd)
  · intro i hi hidle hret
    obtain ⟨hlogin, hnone⟩ := h.quiet i hi hidle hret
    refine ⟨hlogin, fun u' hu' hid => ?_⟩
    rcases mem_sample hu' with hold | hid'
    · exact hnone u' hold hid
    · exact absurd hk ((hid'.symm.trans hid) ▸ h.strange i hi hidle)

/-- The end of an armed operation. -/
theorem Agree.setIntent (h : Agree p live dropped s l) {k : Uuid} {f : Intent → Intent}
    (hf : ∀ i, (f i).operationId = i.operationId)
    (harmed : (l.intents.find? k).any (·.status == .armed) = true)
    (hnew : ∀ i, p.idle (f i) = false) :
    Agree p live dropped (s.setIntent k f hf) (l.setIntent k f hf) := by
  refine h.updateIntents hf (fun i hi hk => ?_) hnew
  obtain ⟨j, hj, hst⟩ := Option.any_eq_true .. |>.mp harmed
  have hi' : l.intents.find? k = some i := Table.find?_eq_some.mpr ⟨hi, of_decide_eq_true hk⟩
  rw [hi'] at hj
  cases hj
  exact beq_iff_eq.mp hst

theorem Agree.chargeStart (h : Agree p live dropped s l) (op : Operation) (started : Instant) :
    Agree p live dropped (s.chargeStart op started) (l.chargeStart op started) := by
  unfold Ledger.chargeStart
  split
  · exact h
  · exact (h.charge _ _ _ _).charge _ _ _ _

theorem Agree.finish (h : Agree p live dropped s l) (hnow : p.now ≤ now) {op : Operation}
    (hk : live op.operationId) (startedAt : Option Instant) (possiblyStarted : Bool)
    (outcome : Outcome) :
    (s.call (.finish now op startedAt possiblyStarted outcome)).2 =
      (l.call (.finish now op startedAt possiblyStarted outcome)).2 ∧
    Agree p live dropped (s.call (.finish now op startedAt possiblyStarted outcome)).1
      (l.call (.finish now op startedAt possiblyStarted outcome)).1 := by
  simp only [Ledger.call, finalize, h.find? hk]
  cases harmed : (l.intents.find? op.operationId).any (·.status == .armed) with
  | false => exact ⟨rfl, h⟩
  | true =>
    cases startedAt with
    | none =>
      cases possiblyStarted with
      | true =>
        exact ⟨rfl, (h.recordFloor _ _ _).setIntent _ harmed fun i => idle_of_open rfl⟩
      | false => exact ⟨rfl, h.setIntent _ harmed fun i => idle_of_completed hnow rfl⟩
    | some started =>
      have hend := ((h.chargeStart op started).recordFloor op.account (now + op.interval)
        .pacing).setIntent (Intent.settle_id started now outcome)
          (by rw [← harmed, ← Ledger.chargeStart_intents l op started]; rfl)
          fun i => idle_of_completed hnow rfl
      by_cases hle : started ≤ now
      · simp only [ensure, decide_eq_true hle, if_true]
        exact ⟨rfl, hend⟩
      · simp only [ensure, decide_eq_false hle, Bool.false_eq_true, if_false]
        exact ⟨rfl, h⟩

theorem Agree.dayFull (h : Agree p live dropped s l) (hnow : p.now ≤ now) (r : Reservation) :
    r.dayFull now s (windows now).1 = r.dayFull now l (windows now).1 := by
  unfold Reservation.dayFull Ledger.blocked Ledger.used Ledger.usedBytes
  rw [h.row hnow r.account (Or.inl rfl)]

theorem Agree.minuteFull (h : Agree p live dropped s l) (hnow : p.now ≤ now) (r : Reservation) :
    r.minuteFull now s (windows now).2 = r.minuteFull now l (windows now).2 := by
  unfold Reservation.minuteFull Ledger.blocked Ledger.used
  rw [h.row hnow r.account (Or.inr rfl)]

theorem Agree.allocate (h : Agree p live dropped s l) (hnow : p.now ≤ now) (r : Reservation) :
    (∃ e, r.allocate (windows now).1 s = .error e ∧ r.allocate (windows now).1 l = .error e) ∨
    ∃ s' l', r.allocate (windows now).1 s = .ok s' ∧ r.allocate (windows now).1 l = .ok l' ∧
      Agree p live dropped s' l' := by
  unfold Reservation.allocate
  cases r.allocation with
  | none => exact Or.inr ⟨s, l, rfl, rfl, h⟩
  | some allocation =>
    have hbytes : ∀ a, s.usedBytes a (windows now).1 = l.usedBytes a (windows now).1 := by
      intro a
      unfold Ledger.usedBytes
      rw [h.row hnow a (Or.inl rfl)]
    simp only
    rw [h.used hnow _ (Or.inl rfl), hbytes]
    generalize (decide (l.used (allocationAccount r.account allocation) (windows now).1 + r.requests ≤
      r.allocationRequestLimit) && decide (l.usedBytes (allocationAccount r.account allocation)
        (windows now).1 + r.byteCount ≤ r.allocationByteLimit)) = fits
    cases fits with
    | true => exact Or.inr ⟨_, _, rfl, rfl, h.charge _ _ _ _⟩
    | false => exact Or.inl ⟨_, rfl, rfl⟩

/-- Two reservations that end alike. -/
def Alike (p : Prune) (live : Uuid → Prop) (dropped : Uuid → Bool) (s l : Ledger)
    (x y : Except (Raised QuotaBlocked Ledger) (Ledger × Granted)) : Prop :=
  (∃ e s' l', x = .error ⟨e, s'⟩ ∧ y = .error ⟨e, l'⟩ ∧
    Agree p live dropped (s'.getD s) (l'.getD l)) ∨
  ∃ g s' l', x = .ok (s', g) ∧ y = .ok (l', g) ∧ Agree p live dropped s' l'

theorem Agree.spend (h : Agree p live dropped s l) (hnow : p.now ≤ now) (r : Reservation)
    (before : Nat) (s₀ l₀ : Ledger) :
    Alike p live dropped s₀ l₀ (r.spend now before s) (r.spend now before l) := by
  have hcharged := h.charge r.account (windows now).1 r.requests r.byteCount
  unfold Reservation.spend
  simp only
  rw [hcharged.minuteFull hnow r]
  cases r.minuteFull now (l.charge r.account (windows now).1 r.requests r.byteCount)
    (windows now).2 with
  | true => exact Or.inl ⟨_, some _, some _, rfl, rfl, hcharged⟩
  | false => exact Or.inr ⟨_, _, _, rfl, rfl, (hcharged.charge _ _ _ _).recordFloor _ _ _⟩

theorem Agree.take (h : Agree p live dropped s l) (hnow : p.now ≤ now) (r : Reservation) :
    Alike p live dropped s l (r.take now s) (r.take now l) := by
  have hrows := (h.charge r.account (windows now).1 0 0).charge r.account (windows now).2 0 0
  unfold Reservation.take
  simp only
  rw [hrows.dayFull hnow r, hrows.minuteFull hnow r, hrows.used hnow _ (Or.inl rfl)]
  cases r.dayFull now ((l.charge r.account (windows now).1 0 0).charge r.account (windows now).2 0 0)
    (windows now).1 with
  | true => exact Or.inl ⟨_, none, none, rfl, rfl, h⟩
  | false =>
    cases r.minuteFull now ((l.charge r.account (windows now).1 0 0).charge r.account
      (windows now).2 0 0) (windows now).2 with
    | true => exact Or.inl ⟨_, none, none, rfl, rfl, h⟩
    | false =>
      rcases hrows.allocate hnow r with ⟨e, hs, hl⟩ | ⟨s', l', hs, hl, hallocated⟩
      · rw [hs, hl]
        exact Or.inl ⟨_, none, none, rfl, rfl, h⟩
      · rw [hs, hl]
        exact hallocated.spend hnow r _ s l

theorem Agree.reserve (h : Agree p live dropped s l) (hnow : p.now ≤ now) (r : Reservation) :
    (s.call (.reserve now r)).2 = (l.call (.reserve now r)).2 ∧
      Agree p live dropped (s.call (.reserve now r)).1 (l.call (.reserve now r)).1 := by
  have hlt := lt_iff_of_max_eq (h.floors.pacing r.account) hnow
  have hsub := sub_eq_of_max_eq (h.floors.pacing r.account) hnow
  simp only [Ledger.call]
  unfold reserveAcquisition
  rw [h.violations]
  cases r.valid with
  | false => exact ⟨rfl, h⟩
  | true =>
    cases r.enforceCapacity && l.violations.contains r.account with
    | true => exact ⟨rfl, h⟩
    | false =>
      by_cases hwait : now < l.nextAt r.account
      · rw [if_pos hwait, if_pos (hlt.mpr hwait), hsub]
        exact ⟨rfl, h⟩
      · rw [if_neg hwait, if_neg fun hs => hwait (hlt.mp hs)]
        rcases h.take hnow r with ⟨e, s', l', hs, hl, hkept⟩ | ⟨g, s', l', hs, hl, hgranted⟩
        · rw [hs, hl]
          exact ⟨rfl, hkept⟩
        · rw [hs, hl]
          exact ⟨rfl, hgranted⟩

/-- **Step lemma.** A call is answered alike, and leaves ledgers that agree. -/
theorem Agree.call (h : Agree p live dropped s l) {c : Call} (hc : c.notBefore p.now)
    (hk : ∀ k, c.operationId = some k → live k) :
    (s.call c).2 = (l.call c).2 ∧ Agree p live dropped (s.call c).1 (l.call c).1 := by
  cases c with
  | open_ => exact ⟨rfl, h.opened⟩
  | enter now op => exact h.enter op
  | prepare now op publishes => exact h.prepare hc (hk _ rfl) publishes
  | usage op u => exact ⟨rfl, h.sample (hk _ rfl) u⟩
  | rateLimited now op delay => exact ⟨rfl, h.recordFloor _ _ _⟩
  | finish now op startedAt possiblyStarted outcome =>
    exact h.finish hc (hk _ rfl) startedAt possiblyStarted outcome
  | reserve now r => exact h.reserve hc r

/-! ## One batch -/

/-- What a batch of intents has selected. -/
theorem Agree.selected (h : Agree p live dropped s l) {account : Account} {status : IntentStatus}
    {ids : List Uuid} (hsel : (Batch.intents account status ids).selected p s = true) {i : Intent}
    (hi : i ∈ l.intents) (hid : i.operationId ∈ ids) :
    p.idle i = true ∧ i.account ∉ p.retained := by
  simp only [Batch.selected, Bool.and_eq_true, List.all_eq_true, Option.any_eq_true] at hsel
  obtain ⟨⟨⟨hret, hopen⟩, _⟩, hall⟩ := hsel
  obtain ⟨j, hj, ⟨hacc, hst⟩, hold⟩ := hall _ hid
  obtain ⟨hj, hjid⟩ := Table.find?_eq_some.mp hj
  rw [h.intents] at hj
  have hji : j = i := Table.eq_of_key (Table.mem_delete.mp hj).1 hi hjid
  subst hji
  constructor
  · unfold Prune.idle
    rw [beq_iff_eq.mp hst, hopen, Bool.true_and]
    exact Option.any_eq_true .. |>.mpr hold
  · rw [beq_iff_eq.mp hacc]
    simpa using hret

theorem Agree.pruneIntents (h : Agree p live dropped s l) {account : Account}
    {status : IntentStatus} {ids : List Uuid}
    (hsel : (Batch.intents account status ids).selected p s = true) :
    Agree p live (fun k => dropped k || ids.contains k)
      { s with
        usage := s.usage.delete fun u => ids.contains u.operationId
        intents := s.intents.delete fun i => ids.contains i.operationId } l := by
  -- Every selected id is one of an idle row of the full ledger.
  have hrow : ∀ k ∈ ids, ∃ i ∈ l.intents, i.operationId = k := by
    intro k hk
    simp only [Batch.selected, Bool.and_eq_true, List.all_eq_true, Option.any_eq_true] at hsel
    obtain ⟨j, hj, _⟩ := hsel.2 k hk
    obtain ⟨hj, hjid⟩ := Table.find?_eq_some.mp hj
    rw [h.intents] at hj
    exact ⟨j, (Table.mem_delete.mp hj).1, hjid⟩
  have hclear : ∀ u ∈ l.usage, ids.contains u.operationId = false := by
    intro u hu
    rw [Bool.eq_false_iff, ne_eq, List.contains_iff_mem]
    intro hk
    obtain ⟨i, hi, hid⟩ := hrow _ hk
    obtain ⟨hidle, hret⟩ := h.selected hsel hi (hid ▸ hk)
    exact (h.quiet i hi hidle hret).2 u hu hid.symm
  refine ⟨?_, fun i hi hd => ?_, fun k hd => ?_, ?_, fun u hu => ?_, h.quiet, h.strange,
    h.violations, ⟨h.quota.current, h.quota.blocked⟩, ⟨h.floors.pacing, h.floors.cooldown⟩⟩
  · change s.intents.delete _ = _
    rw [h.intents]
    apply Table.ext_rows
    simp only [Table.delete, List.filter_filter]
    refine List.filter_congr fun i _ => ?_
    rw [Bool.not_or, Bool.and_comm]
  · rcases Bool.or_eq_true_iff.mp hd with hd | hd
    · exact h.idle i hi hd
    · obtain ⟨hidle, hret⟩ := h.selected hsel hi (List.contains_iff_mem.mp hd)
      exact ⟨hidle, (h.quiet i hi hidle hret).1⟩
  · rcases Bool.or_eq_true_iff.mp hd with hd | hd
    · exact h.unused k hd
    · obtain ⟨i, hi, rfl⟩ := hrow k (List.contains_iff_mem.mp hd)
      exact h.strange i hi (h.selected hsel hi (List.contains_iff_mem.mp hd)).1
  · change s.usage.delete _ = _
    rw [h.usage]
    apply Table.ext_rows
    simp only [Table.delete]
    refine List.filter_eq_self.mpr fun u hu => ?_
    rw [hclear u hu]
    rfl
  · rw [h.unsampled u hu, hclear u hu]
    rfl

theorem Agree.pruneWindows (h : Agree p live dropped s l) {account : Account} {ws : List Window}
    (hsel : (Batch.windows account ws).selected p s = true) :
    Agree p live dropped
      { s with quota := s.quota.delete fun r => r.account == account && ws.contains r.window }
      l := by
  simp only [Batch.selected, Bool.and_eq_true, List.all_eq_true, Option.any_eq_true] at hsel
  have hpast : ∀ r ∈ s.quota, (r.account == account && ws.contains r.window) = true →
      r.window.date < p.cutoffDay ∧ r.blockedUntil < p.now := by
    intro r hr hc
    obtain ⟨hacc, hw⟩ := Bool.and_eq_true_iff.mp hc
    obtain ⟨q, hq, hpast⟩ := hsel.2 _ (List.contains_iff_mem.mp hw)
    obtain ⟨hq, hkey⟩ := Table.find?_eq_some.mp hq
    have hrq : r = q := by
      refine Table.eq_of_key hr hq ?_
      rw [hkey, ← beq_iff_eq.mp hacc]
      rfl
    subst hrq
    simpa [Prune.past] using hpast
  refine { h with quota := ⟨fun a w hw => ?_, fun a w => ?_⟩, floors := ⟨h.floors.pacing, h.floors.cooldown⟩ }
  · change (s.quota.delete _).find? (a, w) = _
    rw [Table.find?_delete, ← h.quota.current a w hw]
    cases hf : s.quota.find? (a, w) with
    | none => rfl
    | some r =>
      obtain ⟨hr, hkey⟩ := Table.find?_eq_some.mp hf
      have hdate : r.window = w := congrArg Prod.snd hkey
      cases hc : r.account == account && ws.contains r.window with
      | false =>
        rw [Option.filter_some, hc]
        rfl
      | true => exact absurd (hdate ▸ (hpast r hr hc).1) (not_lt.mpr hw)
  · rw [← h.quota.blocked a w]
    unfold Ledger.blocked
    change max p.now (((s.quota.delete _).find? (a, w)).elim 0 _) = _
    rw [Table.find?_delete]
    cases hf : s.quota.find? (a, w) with
    | none => rfl
    | some r =>
      cases hc : r.account == account && ws.contains r.window with
      | false =>
        rw [Option.filter_some, hc]
        rfl
      | true =>
        have hle := le_of_lt (hpast r (Table.find?_eq_some.mp hf).1 hc).2
        rw [Option.filter_some, hc]
        exact (max_eq_left (Nat.zero_le p.now)).trans (max_eq_left hle).symm

theorem Agree.pruneBatch (h : Agree p live dropped s l) (b : Batch) :
    ∃ dropped', Agree p live dropped' (s.pruneBatch p b) l := by
  unfold Ledger.pruneBatch
  split
  · rename_i hsel
    cases b with
    | intents account status ids => exact ⟨_, h.pruneIntents hsel⟩
    | windows account ws => exact ⟨_, h.pruneWindows hsel⟩
  · exact ⟨_, h⟩

/-- **Run lemma.** Batches anywhere between the calls change no answer. -/
theorem Agree.answers (events : List Event) {dropped : Uuid → Bool} {s l : Ledger}
    (h : Agree p live dropped s l)
    (hc : ∀ c ∈ events.filterMap Event.call?, c.notBefore p.now ∧
      ∀ k, c.operationId = some k → live k) :
    p.answers events s = l.answers (events.filterMap Event.call?) := by
  induction events generalizing dropped s l with
  | nil => rfl
  | cons e rest ih =>
    cases e with
    | call c =>
      obtain ⟨hlate, hlive⟩ := hc c List.mem_cons_self
      obtain ⟨hsame, hagree⟩ := h.call hlate hlive
      change (s.call c).2 :: p.answers rest (s.call c).1 =
        (l.call c).2 :: Ledger.answers (rest.filterMap Event.call?) (l.call c).1
      rw [hsame, ih hagree fun c' hc' => hc c' (List.mem_cons_of_mem _ hc')]
    | batch b =>
      obtain ⟨dropped', hagree⟩ := h.pruneBatch b
      exact ih hagree hc

/-- Before the first batch. -/
theorem Agree.start {now : Instant} {batch : Nat} (hl : l.Genuine)
    (hlive : ∀ i ∈ l.intents, (Prune.mk now l.retainedAccounts batch).idle i = true →
      ¬ live i.operationId) :
    Agree ⟨now, l.retainedAccounts, batch⟩ live (fun _ => false)
      { l with retention := some (now + pruneInterval) } l where
  intents := by
    apply Table.ext_rows
    simp [Table.delete]
  idle := fun _ _ hd => (by cases hd)
  unused := fun _ hd => (by cases hd)
  usage := rfl
  unsampled := fun _ _ => rfl
  quiet := by
    intro i hi _ hret
    refine hl i hi fun hprovider => hret ?_
    exact List.mem_append_right _ (List.mem_map_of_mem
      (List.mem_filter.mpr ⟨hi, by rw [hprovider]; rfl⟩))
  strange := hlive
  violations := rfl
  quota := ⟨fun _ _ _ => rfl, fun _ _ => rfl⟩
  floors := ⟨fun _ => rfl, fun _ => rfl⟩

end Agreement

/-- What a prune must not take away. -/
structure Kept (p : Prune) (s s' : Ledger) : Prop where
  intents : ∀ i ∈ s.intents, i.status.open_ = true → i ∈ s'.intents
  pacing : s'.pacing = s.pacing
  cooldown : s'.cooldown = s.cooldown
  blocked : ∀ r ∈ s.quota, p.now ≤ r.blockedUntil → r ∈ s'.quota
  current : ∀ r ∈ s.quota, ∀ t, p.now ≤ t →
    r.window = (windows t).1 ∨ r.window = (windows t).2 → r ∈ s'.quota

theorem kept_pruneBatch (p : Prune) (s : Ledger) (b : Batch) : Kept p s (s.pruneBatch p b) := by
  unfold Ledger.pruneBatch
  split
  · rename_i hsel
    cases b with
    | intents account status ids =>
      refine ⟨fun i hi hopen => ?_, rfl, rfl, fun r hr _ => hr, fun r hr _ _ _ => hr⟩
      simp only [Batch.selected, Bool.and_eq_true, List.all_eq_true, Option.any_eq_true] at hsel
      refine Table.mem_delete.mpr ⟨hi, ?_⟩
      rw [Bool.eq_false_iff, ne_eq, List.contains_iff_mem]
      intro hid
      obtain ⟨j, hj, ⟨_, hst⟩, _⟩ := hsel.2 _ hid
      rw [Table.find?_self hi] at hj
      cases hj
      have hsettled := hsel.1.1.2
      rw [← beq_iff_eq.mp hst, hopen] at hsettled
      cases hsettled
    | windows account ws =>
      have hkeep : ∀ r ∈ s.quota, p.past r = false →
          r ∈ s.quota.delete fun r => r.account == account && ws.contains r.window := by
        intro r hr hpast
        refine Table.mem_delete.mpr ⟨hr, ?_⟩
        rw [Bool.eq_false_iff, ne_eq, Bool.and_eq_true, beq_iff_eq, List.contains_iff_mem]
        rintro ⟨rfl, hw⟩
        simp only [Batch.selected, Bool.and_eq_true, List.all_eq_true, Option.any_eq_true] at hsel
        obtain ⟨q, hq, hpast'⟩ := hsel.2 _ hw
        have hself : s.quota.find? (r.account, r.window) = some r := Table.find?_self hr
        rw [hself] at hq
        cases hq
        rw [hpast] at hpast'
        cases hpast'
      refine ⟨fun i hi _ => hi, rfl, rfl, fun r hr hblocked => hkeep r hr ?_,
        fun r hr t ht hw => hkeep r hr ?_⟩
      · unfold Prune.past
        rw [decide_eq_false (not_lt.mpr hblocked), Bool.and_false]
      · have hdate : p.cutoffDay ≤ r.window.date := by
          rcases hw with hw | hw
          · rw [hw]
            exact (cutoffDay_le ht).1
          · rw [hw]
            exact (cutoffDay_le ht).2
        unfold Prune.past
        rw [decide_eq_false (not_lt.mpr hdate), Bool.false_and]
  · exact ⟨fun i hi _ => hi, rfl, rfl, fun r hr _ => hr, fun r hr _ _ _ => hr⟩

/-- **Pruning is unobservable**: the calls that follow its claim are answered as if there
were no prune, whatever its batches and wherever they stop. -/
theorem prune_unobservable (l l' : Ledger) (now : Instant) (batch : Nat) (p : Prune)
    (hp : l.claimPrune now batch = some (l', p)) (hl : l.Genuine) (events : List Event)
    (hclock : ∀ c ∈ events.filterMap Event.call?, c.notBefore now)
    (hids : ∀ c ∈ events.filterMap Event.call?, ∀ i ∈ l.intents, p.idle i = true →
      c.operationId ≠ some i.operationId) :
    p.answers events l' = l.answers (events.filterMap Event.call?) ∧
    ∀ s b, Kept p s (s.pruneBatch p b) := by
  refine ⟨?_, kept_pruneBatch p⟩
  unfold Ledger.claimPrune at hp
  split at hp
  · cases hp
  · cases hp
    have hstart : Agree ⟨now, l.retainedAccounts, batch⟩
        (fun k => ∃ c ∈ events.filterMap Event.call?, c.operationId = some k) (fun _ => false)
        { l with retention := some (now + pruneInterval) } l := by
      refine Agree.start hl ?_
      rintro i hi hidle ⟨c, hc, hk⟩
      exact hids c hc i hi hidle hk
    exact hstart.answers events fun c hc => ⟨hclock c hc, fun k hk => ⟨c, hc, hk⟩⟩

/-- A call of a FinLab account with ten requests a day. -/
def finlabCall (operationId : Uuid) : Operation :=
  ⟨operationId, .finlab, "f".toList, .call "eod", some 10, none, second, 60 * second⟩

/-- The ledger after one operation. -/
def settledLedger : Ledger :=
  ((((Ledger.empty.call (.enter 0 (finlabCall 1))).1.call
    (.prepare 0 (finlabCall 1) false)).1).call
      (.finish second (finlabCall 1) (some 0) false .success)).1

/-- Ten days later it is dropped, and the next operation starts as ever. -/
def laterEvents : List Event :=
  [.batch (.intents "f".toList .finalized [1]), .call (.enter (10 * day) (finlabCall 2)),
    .batch (.windows "f".toList [.day 0, .minute 0]), .call (.prepare (10 * day) (finlabCall 2) false)]

theorem prune_unobservable_settledLedger :
    ∃ l' p, settledLedger.claimPrune (10 * day) 5000 = some (l', p) ∧
      (l'.pruneBatch p (.intents "f".toList .finalized [1])).intents.rows = [] ∧
      (l'.pruneBatch p (.windows "f".toList [.day 0, .minute 0])).quota.rows = [] ∧
      p.answers laterEvents l' = settledLedger.answers (laterEvents.filterMap Event.call?) := by
  refine ⟨_, _, rfl, rfl, rfl, ?_⟩
  have hcalls : laterEvents.filterMap Event.call? =
      [.enter (10 * day) (finlabCall 2), .prepare (10 * day) (finlabCall 2) false] := rfl
  have hgenuine : settledLedger.Genuine := by
    have hempty : Ledger.empty.Genuine := fun i hi => by cases hi
    have hentered := hempty.call (c := .enter 0 (finlabCall 1)) trivial
    have hprepared := hentered.call (c := .prepare 0 (finlabCall 1) false)
      fun _ => ⟨rfl, fun u hu => by cases hu⟩
    exact hprepared.call (c := .finish second (finlabCall 1) (some 0) false .success) trivial
  have hrow : ∀ i ∈ settledLedger.intents.rows, i.operationId = 1 := by decide
  refine (prune_unobservable settledLedger _ (10 * day) 5000 _ rfl hgenuine laterEvents ?_ ?_).1
  · intro c hc
    rw [hcalls] at hc
    simp only [List.mem_cons, List.not_mem_nil, or_false] at hc
    rcases hc with rfl | rfl
    · exact Nat.le_refl (10 * day)
    · exact Nat.le_refl (10 * day)
  · intro c hc i hi _ hid
    rw [hcalls] at hc
    simp only [List.mem_cons, List.not_mem_nil, or_false] at hc
    rcases hc with rfl | rfl
    · cases (hrow i hi).symm.trans (Option.some.inj hid).symm
    · cases (hrow i hi).symm.trans (Option.some.inj hid).symm

end FinDB.Fetcher
