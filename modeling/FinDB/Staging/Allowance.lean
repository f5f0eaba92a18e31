import FinDB.Staging.Audit

/-! # The rolling allowance

The requests of a window are the reservations of the limiter less the proven waits. Old
reservations are purged, waits are told from the audit, and an attempt becomes a wait after it
was counted. -/
namespace FinDB.Staging
open FinDB.Lib
open FinDB.Scheduler (Datetime)

/-! ## A clock that does not go back -/

/-- The database with the last reading of `acquire_attempt`. -/
structure Clocked where
  store : Store
  clock : Int

variable (P : Platform) (gov : Governance)

def Clocked.step (op : Op) (w : Clocked) : Clocked :=
  ⟨FinDB.Staging.step P gov op w.store, match op.clock with
    | some now => now.instant
    | none => w.clock⟩

/-- Attempts are acquired in the order of their readings, in a zone of one offset. -/
def Steady (w : Clocked) (op : Op) : Prop :=
  ∀ now, op.clock = some now → FixedZone now ∧ w.clock ≤ now.instant

def ClockedRuns : Clocked → Clocked → Prop := StepsIf (Clocked.step P gov) Steady

def Governance.rolling (gov : Governance) : Int := gov.rollingSeconds * 1000000

/-- The attempts from `x` to the end of the window, less the proven waits. -/
def Store.spent (s : Store) (x : Int) : List Attempt :=
  s.providerAttempts.rows.filter fun a =>
    (decide (x ≤ a.createdAt.toMicros) && decide (a.createdAt.toMicros ≤ x + gov.rolling)) && !a.isWait

variable {P gov}

/-! ## What the limiter knows -/

theorem cutoff_instant {now : Datetime} {nowText cutoff : UtcTime} (h : Reads gov now nowText cutoff)
    (hfixed : FixedZone now) : cutoff.toMicros = now.instant - gov.rolling := by
  obtain ⟨earlier, hshift, hutc⟩ := h.readsCutoff
  rw [utc_ok hutc, shift_instant hfixed hshift]
  unfold Governance.rolling
  omega

/-- The reservations and the audit agree from the last cutoff on, and no window is overspent. -/
structure Allowed (gov : Governance) (w : Clocked) : Prop where
  past : ∀ a ∈ w.store.providerAttempts.rows, a.createdAt.toMicros ≤ w.clock
  reserved : ∀ x, w.clock - gov.rolling ≤ x →
    (w.store.limiter.filter fun t => decide (x ≤ t.toMicros)).length =
      (w.store.providerAttempts.rows.filter fun a => decide (x ≤ a.createdAt.toMicros)).length
  window : ∀ x, (w.store.spent gov x).length ≤ gov.maxRequests

theorem allowed_empty (clock : Int) : Allowed gov ⟨.empty, clock⟩ :=
  ⟨fun _ h => absurd h List.not_mem_nil, fun _ _ => rfl, fun _ => Nat.zero_le _⟩

theorem forall₂_created {xs ys : List Attempt} (h : List.Forall₂ Attempt.Closes xs ys)
    (p : UtcTime → Bool) :
    (ys.filter fun a => p a.createdAt).length = (xs.filter fun a => p a.createdAt).length := by
  induction h with
  | nil => rfl
  | @cons a b as bs hab _ ih =>
    rw [List.filter_cons, List.filter_cons, hab.createdAt]
    split
    · exact congrArg Nat.succ ih
    · exact ih

theorem Allowed.closes {w : Clocked} {t : Store} (h : Allowed gov w) (hc : Closes w.store t) :
    Allowed gov ⟨t, w.clock⟩ where
  past b hb := by
    obtain ⟨i, hi, hget⟩ := List.getElem_of_mem hb
    obtain ⟨hlength, hall⟩ := List.forall₂_iff_get.mp hc.attempts
    have hi' : i < w.store.providerAttempts.rows.length := hlength ▸ hi
    have hcreated := (hall i hi' hi).createdAt
    rw [← hget]
    exact hcreated ▸ h.past _ (List.getElem_mem hi')
  reserved x hx := by
    rw [hc.limiter, h.reserved x hx]
    exact (forall₂_created hc.attempts fun t => decide (x ≤ t.toMicros)).symm
  window x := by
    refine (forall₂_spent_le hc.attempts fun a b hab hb => ?_).trans (h.window x)
    rwa [hab.createdAt] at hb

/-! ## A call of `acquire_attempt` -/

/-- Purging drops nothing that later cutoffs see. -/
theorem filter_purged {s : Store} {cutoff : UtcTime} {x : Int} (h : cutoff.toMicros ≤ x) :
    (purged s cutoff).filter (fun t => decide (x ≤ t.toMicros)) =
      s.limiter.filter fun t => decide (x ≤ t.toMicros) := by
  unfold purged
  rw [List.filter_filter]
  refine List.filter_congr fun t _ => ?_
  by_cases hx : x ≤ t.toMicros
  · rw [decide_eq_true hx, before_eq_false.mpr (h.trans hx)]
    rfl
  · rw [decide_eq_false hx, Bool.false_and]

theorem purged_eq (s : Store) (cutoff : UtcTime) :
    purged s cutoff = s.limiter.filter fun t => decide (cutoff.toMicros ≤ t.toMicros) := by
  refine List.filter_congr fun t _ => ?_
  by_cases hx : cutoff.toMicros ≤ t.toMicros
  · rw [decide_eq_true hx, before_eq_false.mpr hx]
    rfl
  · rw [decide_eq_false hx, before_iff.mpr (not_le.mp hx)]
    rfl

theorem Allowed.refused {w : Clocked} {t : Store} {now : Datetime} {cutoff : UtcTime}
    (h : Allowed gov w) (hr : Refused w.store t cutoff) (hsteady : w.clock ≤ now.instant)
    (hcutoff : cutoff.toMicros = now.instant - gov.rolling) : Allowed gov ⟨t, now.instant⟩ where
  past a ha := (h.past a (hr.attempts ▸ ha)).trans hsteady
  reserved x hx := by
    dsimp only at hx ⊢
    rw [hr.limiter, hr.attempts, filter_purged (by omega)]
    exact h.reserved x (by omega)
  window x := by
    unfold Store.spent
    dsimp only
    rw [hr.attempts]
    exact h.window x

/-- What the limiter has left is what the window has left. -/
theorem Granted.spare {w : Clocked} {t : Store} {d y : String} {now : Datetime}
    {nowText cutoff : UtcTime} (h : Allowed gov w) (hg : Granted gov w.store t d y nowText cutoff)
    (hsteady : w.clock ≤ now.instant) (hcutoff : cutoff.toMicros = now.instant - gov.rolling) :
    (w.store.providerAttempts.rows.filter fun a =>
      decide (cutoff.toMicros ≤ a.createdAt.toMicros) && !a.isWait).length < gov.maxRequests := by
  have hallowance := hg.allowance
  rw [purged_eq, h.reserved cutoff.toMicros (by omega)] at hallowance
  have hsplit := List.length_eq_length_filter_add
    (l := w.store.providerAttempts.rows.filter fun a => decide (cutoff.toMicros ≤ a.createdAt.toMicros))
    Attempt.isWait
  rw [List.filter_filter, List.filter_filter] at hsplit
  have hwaits : (w.store.providerAttempts.rows.filter fun a => a.isWait && !before a.createdAt cutoff) =
      w.store.providerAttempts.rows.filter fun a =>
        a.isWait && decide (cutoff.toMicros ≤ a.createdAt.toMicros) := by
    refine List.filter_congr fun a _ => ?_
    by_cases hx : cutoff.toMicros ≤ a.createdAt.toMicros
    · rw [decide_eq_true hx, before_eq_false.mpr hx]
      rfl
    · rw [decide_eq_false hx, before_iff.mpr (not_le.mp hx)]
      rfl
  rw [hwaits] at hallowance
  have hcomm : (w.store.providerAttempts.rows.filter fun a =>
      decide (cutoff.toMicros ≤ a.createdAt.toMicros) && !a.isWait) =
      w.store.providerAttempts.rows.filter fun a =>
        !a.isWait && decide (cutoff.toMicros ≤ a.createdAt.toMicros) :=
    List.filter_congr fun a _ => Bool.and_comm _ _
  rw [hcomm]
  omega

theorem Allowed.granted {w : Clocked} {t : Store} {d y : String} {now : Datetime}
    {nowText cutoff : UtcTime} (h : Allowed gov w) (hg : Granted gov w.store t d y nowText cutoff)
    (hsteady : w.clock ≤ now.instant) (hnow : nowText.toMicros = now.instant)
    (hcutoff : cutoff.toMicros = now.instant - gov.rolling) : Allowed gov ⟨t, now.instant⟩ where
  past a ha := by
    dsimp only at ha ⊢
    rw [hg.attempts, List.mem_append, List.mem_singleton] at ha
    rcases ha with ha | rfl
    · exact (h.past a ha).trans hsteady
    · exact hnow.le
  reserved x hx := by
    dsimp only at hx ⊢
    rw [hg.limiter, hg.attempts, List.filter_append, List.filter_append, List.length_append,
      List.length_append, filter_purged (by omega), h.reserved x (by omega)]
    congr 1
    by_cases hle : x ≤ nowText.toMicros
    · rw [List.filter_cons_of_pos (by simpa using hle), List.filter_cons_of_pos (by simpa using hle)]
      rfl
    · rw [List.filter_cons_of_neg (by simpa using hle), List.filter_cons_of_neg (by simpa using hle)]
      rfl
  window x := by
    have hold := h.window x
    unfold Store.spent at hold ⊢
    dsimp only at hold ⊢
    rw [hg.attempts, List.filter_append, List.length_append]
    by_cases hin : x ≤ nowText.toMicros ∧ nowText.toMicros ≤ x + gov.rolling
    · -- every attempt of the window is after the cutoff of this call
      have hspare := Granted.spare h hg hsteady hcutoff
      have hle : (w.store.providerAttempts.rows.filter fun a =>
          (decide (x ≤ a.createdAt.toMicros) && decide (a.createdAt.toMicros ≤ x + gov.rolling)) &&
            !a.isWait).length ≤
          (w.store.providerAttempts.rows.filter fun a =>
            decide (cutoff.toMicros ≤ a.createdAt.toMicros) && !a.isWait).length := by
        refine (List.monotone_filter_right _ fun a ha => ?_).length_le
        rw [Bool.and_eq_true, Bool.and_eq_true, decide_eq_true_eq] at ha
        rw [Bool.and_eq_true, decide_eq_true_eq]
        exact ⟨by omega, ha.2⟩
      have hone := List.length_filter_le
        (fun a : Attempt => (decide (x ≤ a.createdAt.toMicros) &&
          decide (a.createdAt.toMicros ≤ x + gov.rolling)) && !a.isWait)
        [⟨d, y, w.store.attemptCount (d, y) + 1, nowText, .started, none, none⟩]
      rw [List.length_singleton] at hone
      omega
    · rw [List.filter_cons_of_neg (by
        simp only [Bool.and_eq_true, decide_eq_true_eq]
        exact fun hn => hin hn.1)]
      exact hold

theorem allowed_step {w : Clocked} {op : Op} (h : Allowed gov w) (hsteady : Steady w op) :
    Allowed gov (Clocked.step P gov op w) := by
  unfold Clocked.step FinDB.Staging.step
  cases hop : op.clock with
  | none =>
    cases hrun : op.run P gov w.store with
    | error e => exact h
    | ok t => exact h.closes (run_quiet hop hrun).closes
  | some now =>
    obtain ⟨hfixed, hle⟩ := hsteady now hop
    cases hrun : op.run P gov w.store with
    | error e =>
      exact ⟨fun a ha => (h.past a ha).trans hle, fun x hx => h.reserved x (by dsimp only at hx; omega),
        h.window⟩
    | ok t =>
      cases op with
      | acquireAttempt d y now' terminal =>
        cases hop
        obtain ⟨⟨granted, n⟩, hrun⟩ := map_fst_ok hrun
        obtain ⟨-, -, nowText, cutoff, hreads, hcases⟩ := acquireAttempt_cases hrun
        have hcutoff := cutoff_instant hreads hfixed
        obtain ⟨-, hr⟩ | ⟨-, -, hg⟩ := hcases
        · exact h.refused hr hle hcutoff
        · exact h.granted hg hle (utc_ok hreads.readsNow) hcutoff
      | _ => cases hop

theorem pilotTime_fixed (minute : Nat) (h : minute < 60) : FixedZone (pilotTime minute h) :=
  ⟨Scheduler.utc, 0, rfl, fun _ _ => rfl⟩

end FinDB.Staging
