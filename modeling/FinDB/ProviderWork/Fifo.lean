import FinDB.ProviderWork.DrainOnly

/-! # The head of the queue

Rounds are numbered as they join the queue and no number is given twice. A claim of
an idle provider selects the runnable round with the smallest number before it looks
at what the caller may see; a caller that may not see it gets nothing. -/
namespace FinDB.ProviderWork
open FinDB.Lib Relation

variable {cfg : Config} {mode : Mode} {s t : Db}

/-! ## Queue orders -/

/-- `queue_order` is `UNIQUE`. -/
def UniqueOrders (s : Db) : Prop := (s.attempts.rows.map Attempt.queueOrder).Nodup

theorem UniqueOrders.eq (h : UniqueOrders s) {a b : Attempt} (ha : a ∈ s.attempts)
    (hb : b ∈ s.attempts) (he : a.queueOrder = b.queueOrder) : a = b :=
  List.inj_on_of_nodup_map h ha hb he

/-- The identity column has handed out every order there is. -/
structure Ordered (s : Db) : Prop where
  unique : UniqueOrders s
  le : ∀ a ∈ s.attempts, a.queueOrder ≤ s.queueSeq

/-- The orders as they stand in the table. -/
def SameOrders (s t : Db) : Prop :=
  t.attempts.rows.map Attempt.queueOrder = s.attempts.rows.map Attempt.queueOrder

theorem SameOrders.unique (h : SameOrders s t) (hs : UniqueOrders s) : UniqueOrders t := by
  unfold UniqueOrders
  rw [h]
  exact hs

theorem Ordered.same (hs : Ordered s) (h : SameOrders s t) (hseq : t.queueSeq = s.queueSeq) :
    Ordered t := by
  refine ⟨h.unique hs.unique, fun a ha => ?_⟩
  have hmem : a.queueOrder ∈ s.attempts.rows.map Attempt.queueOrder := by
    rw [← h]
    exact List.mem_map_of_mem ha
  obtain ⟨b, hb, he⟩ := List.mem_map.mp hmem
  rw [hseq, ← he]
  exact hs.le b hb

/-- A new round takes the next number. -/
theorem Ordered.insert {a : Attempt} (hs : Ordered s) (order : a.queueOrder = s.queueSeq + 1)
    (ha : s.attempts.insert? a = some t.attempts) (hseq : t.queueSeq = s.queueSeq + 1) :
    Ordered t := by
  refine ⟨?_, fun b hb => ?_⟩
  · unfold UniqueOrders
    rw [Table.insert?_rows ha, List.map_append, List.nodup_append]
    refine ⟨hs.unique, by simp, fun n hn m hm => ?_⟩
    obtain ⟨b, hb, rfl⟩ := List.mem_map.mp hn
    have hle := hs.le b hb
    simp only [List.map_cons, List.map_nil, List.mem_singleton] at hm
    omega
  · rw [hseq]
    rcases (Table.mem_insert? ha).mp hb with hb | rfl
    · exact (hs.le b hb).trans (Nat.le_succ _)
    · exact order.le

theorem trans_ordered (h : Trans cfg mode s t) (hs : Ordered s) : Ordered t := by
  cases h with
  | enqueue order _ _ _ _ _ ha => exact hs.insert order ha rfl
  | reopen order _ _ _ _ _ ha => exact hs.insert order ha rfl
  | @retry work attempt a attempts utc r order held closed _ fresh ha =>
    have hsame : SameOrders s (s.requeue attempt utc r) :=
      Table.map_update (by intro _; rfl) (by intro _; rfl)
    exact (hs.same hsame rfl).insert order ha rfl
  | hand | resume | block | close | drain | finish | cancelQueued | drainQueued =>
    refine hs.same ?_ rfl
    exact Table.map_update (by intro _; rfl) (by intro _; rfl)
  | _ => exact ⟨hs.unique, hs.le⟩

theorem Reachable.ordered (h : Reachable cfg s) : Ordered s := by
  refine h.transInv (fun registry => ⟨List.nodup_nil, ?_⟩) (fun s t henv hs => ?_)
    fun _ _ => trans_ordered
  · exact fun a ha => absurd ha (Table.not_mem_empty a)
  · refine hs.same ?_ henv.queueSeq
    unfold SameOrders
    rw [henv.attempts]

/-- Cancelling a queue leaves the order of its rounds. -/
theorem cancels_sameOrders : Cancels SameOrders where
  refl _ := rfl
  trans _ _ _ h h' := h'.trans h
  item _ _ _ _ := rfl
  request _ _ _ _ := rfl
  work now itemId s := by
    unfold cancelQueuedItemWork
    split
    · rfl
    · split
      · rfl
      · split
        · exact Table.map_update (by intro _; rfl) (by intro _; rfl)
        · exact Table.map_update (by intro _; rfl) (by intro _; rfl)

/-! ## The head -/

/-- The runnable round with the smallest order. -/
structure Head (cfg : Config) (now : Instant) (s : Db) (work : Work) (attempt : Attempt) : Prop where
  mem : attempt ∈ s.attempts
  workMem : work ∈ s.works
  ofWork : attempt.workId = work.workId
  runnable : eligible cfg now s work attempt = true
  least : ∀ a ∈ s.attempts, ∀ w ∈ s.works, a.workId = w.workId → eligible cfg now s w a = true →
    attempt.queueOrder ≤ a.queueOrder

theorem Head.unique {now : Instant} {work work' : Work} {attempt attempt' : Attempt}
    (hu : UniqueOrders s) (h : Head cfg now s work attempt) (h' : Head cfg now s work' attempt') :
    work' = work ∧ attempt' = attempt := by
  have hle := h.least attempt' h'.mem work' h'.workMem h'.ofWork h'.runnable
  have hge := h'.least attempt h.mem work h.workMem h.ofWork h.runnable
  have hattempt : attempt' = attempt := hu.eq h'.mem h.mem (by omega)
  refine ⟨Table.eq_of_key h'.workMem h.workMem ?_, hattempt⟩
  rw [← h'.ofWork, hattempt, h.ofWork]

theorem firstInQueue_none {cs : List (Work × Attempt)} (h : firstInQueue cs = none) : cs = [] := by
  cases cs with
  | nil => rfl
  | cons c rest =>
    simp only [firstInQueue] at h
    split at h
    · cases h
    · split at h <;> cases h

theorem firstInQueue_least {cs : List (Work × Attempt)} {c : Work × Attempt}
    (h : firstInQueue cs = some c) : ∀ d ∈ cs, c.2.queueOrder ≤ d.2.queueOrder := by
  induction cs generalizing c with
  | nil => cases h
  | cons e rest ih =>
    simp only [firstInQueue] at h
    intro d hd
    cases hrest : firstInQueue rest with
    | none =>
      rw [hrest] at h
      cases h
      rw [firstInQueue_none hrest] at hd
      rw [List.mem_singleton.mp hd]
    | some best =>
      rw [hrest] at h
      have hbest := ih hrest
      simp only at h
      split at h
      · rename_i hlt
        cases h
        rcases List.mem_cons.mp hd with rfl | hd
        · exact hlt.le
        · exact hbest d hd
      · rename_i hle
        cases h
        rcases List.mem_cons.mp hd with rfl | hd
        · exact le_rfl
        · exact (Nat.not_lt.mp hle).trans (hbest d hd)

theorem mem_candidates {now : Instant} {work : Work} {attempt : Attempt} (ha : attempt ∈ s.attempts)
    (hw : work ∈ s.works) (hof : attempt.workId = work.workId)
    (he : eligible cfg now s work attempt = true) : (work, attempt) ∈ candidates cfg now s := by
  have hfind : s.works.find? attempt.workId = some work :=
    Table.find?_eq_some.mpr ⟨hw, hof.symm⟩
  exact List.mem_filterMap.mpr ⟨attempt, ha, by rw [hfind, Option.bind_some, if_pos he]⟩

/-- What the query selects. -/
theorem firstInQueue_head {now : Instant} {work : Work} {attempt : Attempt}
    (h : firstInQueue (candidates cfg now s) = some (work, attempt)) :
    Head cfg now s work attempt := by
  obtain ⟨hmem, hwmem, hof, he⟩ := candidates_spec (firstInQueue_mem h)
  refine ⟨hmem, hwmem, hof, he, fun a ha w hw hofw hew => ?_⟩
  exact firstInQueue_least h (w, a) (mem_candidates ha hw hofw hew)

theorem no_head {now : Instant} (h : firstInQueue (candidates cfg now s) = none) (work : Work)
    (attempt : Attempt) : ¬ Head cfg now s work attempt := by
  intro hhead
  have hmem := mem_candidates hhead.mem hhead.workMem hhead.ofWork hhead.runnable
  rw [firstInQueue_none h] at hmem
  cases hmem

/-! ## Callers -/

/-- What a caller gets of a head in `u`: the head, or nothing and the rows as they are. -/
def Obtains (u : Db) (work : Work) (attempt : Attempt) (r : ClaimRequest) (t : Db)
    (answer : Option Claimed) : Prop :=
  (r.admits work = true ∧ ∃ c, answer = some c ∧ c.work.workId = work.workId ∧
    c.attempt.attemptId = attempt.attemptId) ∨
  (r.admits work = false ∧ answer = none ∧ t = u)

theorem claim_idle {now utc : Instant} {token : Uuid} {r : ClaimRequest} {answer : Option Claimed}
    (idle : s.owner.attemptId = none) (h : claim cfg now utc token r s = .ok (t, answer)) :
    (t, answer) = claimFresh cfg now utc token r s := by
  unfold claim at h
  obtain ⟨_, _, h⟩ := ok_bind h
  obtain ⟨_, _, h⟩ := ok_bind h
  obtain ⟨_, _, h⟩ := ok_bind h
  simp only [idle] at h
  exact ok_pure h

/-- A claim without a head gives nothing. -/
theorem claim_no_head {now utc : Instant} {token : Uuid} {r : ClaimRequest}
    {answer : Option Claimed} (idle : s.owner.attemptId = none)
    (h : claim cfg now utc token r s = .ok (t, answer))
    (hnone : firstInQueue (candidates cfg now (reconcileCancelledQueue cfg now utc s)) = none) :
    answer = none ∧ t = reconcileCancelledQueue cfg now utc s := by
  have hfresh := claim_idle idle h
  unfold claimFresh at hfresh
  simp only [hnone] at hfresh
  cases hfresh
  exact ⟨rfl, rfl⟩

/-- A claim with a head gives it to a caller that may see it. -/
theorem claim_obtains {now utc : Instant} {token : Uuid} {r : ClaimRequest} {answer : Option Claimed}
    {work : Work} {attempt : Attempt} (idle : s.owner.attemptId = none)
    (h : claim cfg now utc token r s = .ok (t, answer))
    (hfirst : firstInQueue (candidates cfg now (reconcileCancelledQueue cfg now utc s)) =
      some (work, attempt)) :
    Obtains (reconcileCancelledQueue cfg now utc s) work attempt r t answer := by
  have hfresh := claim_idle idle h
  unfold claimFresh at hfresh
  simp only [hfirst] at hfresh
  cases hadmits : r.admits work with
  | false =>
    simp only [hadmits] at hfresh
    cases hfresh
    exact Or.inr ⟨hadmits, rfl, rfl⟩
  | true =>
    simp only [hadmits] at hfresh
    cases hfresh
    exact Or.inl ⟨hadmits, _, rfl, rfl, rfl⟩

/-- **The head.** Two callers of an idle provider at one clock see one head: the
runnable round with the smallest order, alone in that. Each of them obtains it or
nothing, and a caller whose scope does not cover it leaves the rows as the
reconciliation of the cancelled queue left them. -/
theorem claim_head {now utc : Instant} {token token' : Uuid} {r r' : ClaimRequest} {t' : Db}
    {answer answer' : Option Claimed} (hu : UniqueOrders s) (idle : s.owner.attemptId = none)
    (h : claim cfg now utc token r s = .ok (t, answer))
    (h' : claim cfg now utc token' r' s = .ok (t', answer')) :
    ((∀ work attempt, ¬ Head cfg now (reconcileCancelledQueue cfg now utc s) work attempt) ∧
      (answer = none ∧ t = reconcileCancelledQueue cfg now utc s) ∧
      (answer' = none ∧ t' = reconcileCancelledQueue cfg now utc s)) ∨
    ∃ work attempt, Head cfg now (reconcileCancelledQueue cfg now utc s) work attempt ∧
      (∀ w a, Head cfg now (reconcileCancelledQueue cfg now utc s) w a → w = work ∧ a = attempt) ∧
      Obtains (reconcileCancelledQueue cfg now utc s) work attempt r t answer ∧
      Obtains (reconcileCancelledQueue cfg now utc s) work attempt r' t' answer' := by
  cases hfirst : firstInQueue (candidates cfg now (reconcileCancelledQueue cfg now utc s)) with
  | none => exact Or.inl ⟨no_head hfirst, claim_no_head idle h hfirst, claim_no_head idle h' hfirst⟩
  | some c =>
    obtain ⟨work, attempt⟩ := c
    have hunique : UniqueOrders (reconcileCancelledQueue cfg now utc s) :=
      (cancels_sameOrders.reconcile s).unique hu
    have hhead := firstInQueue_head hfirst
    exact Or.inr ⟨work, attempt, hhead, fun w a hw => hhead.unique hunique hw,
      claim_obtains idle h hfirst, claim_obtains idle h' hfirst⟩

/-- A caller with the dataset of a queued work and one without any. -/
theorem claim_head_two_callers :
    ∃ t answer t', claim (utcConfig .twelveData) 5 5 7 (hostClaim false)
        (ranTwelveData [enqueueMaintenance]) = .ok (t, answer) ∧
      claim (utcConfig .twelveData) 5 5 8 { hostClaim false with datasets := [] }
        (ranTwelveData [enqueueMaintenance]) = .ok (t', none) ∧
      ∃ work attempt, Head (utcConfig .twelveData) 5 (reconcileCancelledQueue
          (utcConfig .twelveData) 5 5 (ranTwelveData [enqueueMaintenance])) work attempt ∧
        Obtains (reconcileCancelledQueue (utcConfig .twelveData) 5 5
          (ranTwelveData [enqueueMaintenance])) work attempt (hostClaim false) t answer := by
  refine ⟨_, _, _, rfl, rfl, ?_⟩
  rcases claim_head (reachable_runAll _ _).ordered.unique rfl
      (rfl : claim (utcConfig .twelveData) 5 5 7 (hostClaim false)
        (ranTwelveData [enqueueMaintenance]) = _)
      (rfl : claim (utcConfig .twelveData) 5 5 8 { hostClaim false with datasets := [] }
        (ranTwelveData [enqueueMaintenance]) = _) with
    ⟨_, ⟨hnone, _⟩, _⟩ | ⟨work, attempt, hhead, _, hobtains, _⟩
  · cases hnone
  · exact ⟨work, attempt, hhead, hobtains⟩

end FinDB.ProviderWork
