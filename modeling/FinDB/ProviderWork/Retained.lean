import FinDB.ProviderWork.Terminal

/-! # Retained deliveries

Bytes that were prepared are never dropped silently: a work ends with a receipt
for every preparation, or it failed and the proof of its last round names the
preparations that were given up. The runs of the receipts had ended when the work
did, and an ended work gains no receipt. -/
namespace FinDB.ProviderWork
open FinDB.Lib Relation

variable {cfg : Config} {mode : Mode} {s t : Db}

/-! ## Accounting for the preparations -/

/-- Every prepared delivery has been accepted. -/
def Delivered (s : Db) (workId : Uuid) : Prop :=
  ∀ k ∈ s.preparedKeys workId, ∃ r ∈ s.receiptsOf workId, r.memberKey = k

/-- The last round settled with a failure code and a proof that lists what is given up. -/
structure GivenUp (s : Db) (workId : Uuid) (a : Attempt) (proof : Proof) : Prop where
  mem : a ∈ s.attempts
  ofWork : a.workId = workId
  settled : a.state = .settled
  last : ∀ b ∈ s.attempts, b.workId = workId → b.attemptNumber ≤ a.attemptNumber
  failureCode : truthy a.failureCode = true
  recorded : a.proof = some proof
  covers : ∀ k ∈ s.preparedKeys workId, (∀ r ∈ s.receiptsOf workId, r.memberKey ≠ k) →
    k ∈ proof.manualPendingPrepared
  within : ∀ k ∈ proof.manualPendingPrepared, k ∈ s.preparedKeys workId

def Accounted (s : Db) (w : Work) : Prop :=
  Delivered s w.workId ∨ (w.state = .failed ∧ ∃ a proof, GivenUp s w.workId a proof)

theorem mem_pendingPrepared {workId : Uuid} {k : String} :
    k ∈ s.pendingPrepared workId ↔
      k ∈ s.preparedKeys workId ∧ ∀ r ∈ s.receiptsOf workId, r.memberKey ≠ k := by
  simp [Db.pendingPrepared]

theorem delivered_of_noPending {workId : Uuid} (h : (s.pendingPrepared workId).isEmpty = true) :
    Delivered s workId := by
  intro k hk
  by_contra hnone
  have hpending : k ∈ s.pendingPrepared workId :=
    mem_pendingPrepared.mpr ⟨hk, fun r hr he => hnone ⟨r, hr, he⟩⟩
  rw [List.isEmpty_iff.mp h] at hpending
  cases hpending

theorem LeftAlone.accounted {w : Work} (hl : LeftAlone s t w.workId) (h : Accounted s w) :
    Accounted t w := by
  rcases h with hd | ⟨hf, a, proof, hg⟩
  · left
    intro k hk
    rw [hl.prepared] at hk
    rw [hl.receipts]
    exact hd k hk
  · refine Or.inr ⟨hf, a, proof, (hl.rounds a hg.ofWork).mpr hg.mem, hg.ofWork, hg.settled,
      fun b hb hbw => hg.last b ((hl.rounds b hbw).mp hb) hbw, hg.failureCode, hg.recorded, ?_, ?_⟩
    · rw [hl.prepared, hl.receipts]
      exact hg.covers
    · rw [hl.prepared]
      exact hg.within

theorem Rounds.number_le {w : Work} {last a : Attempt} (h : Rounds s w last) (ha : a ∈ s.attempts)
    (hof : a.workId = w.workId) : a.attemptNumber ≤ last.attemptNumber := by
  by_cases hk : a.attemptId = last.attemptId
  · rw [Table.eq_of_key ha h.mem hk]
  · exact (h.earlier a ha hof hk).2.2.2.le

/-- A settlement that gives preparations up records them. -/
theorem givenUp_of_manual {work : Work} {attempt : Attempt} (utc : Instant) {r : Settlement}
    (hs : Shape s) (held : Held s work attempt) (hm : r.manual s work.workId = true) :
    r.outcome = .failed ∧ ∃ a proof, GivenUp (s.finish attempt utc r) work.workId a proof := by
  simp only [Settlement.manual, Bool.and_eq_true, beq_iff_eq, List.all_eq_true,
    List.contains_iff_mem] at hm
  obtain ⟨⟨⟨houtcome, hcode⟩, hcovers⟩, hwithin⟩ := hm
  have hrows : ∀ x, x ∈ (s.finish attempt utc r).attempts ↔
      (x ∈ s.attempts ∧ x.attemptId ≠ attempt.attemptId) ∨
      x = { attempt with state := .settled, outcome := some r.outcome, settledAt := some utc,
                         proof := some r.proof, failureCode := r.failureCode } :=
    fun x => Table.mem_modify_row (by intro _; rfl) held.mem
  have hrounds := (hs.held held).2.2
  refine ⟨houtcome, _, r.proof, (hrows _).mpr (Or.inr rfl), held.ofWork, rfl, ?_, hcode, rfl, ?_,
    hwithin⟩
  · intro b hb hbw
    rcases (hrows b).mp hb with ⟨hb, _⟩ | rfl
    · exact hrounds.number_le hb hbw
    · exact le_refl _
  · exact fun k hk hnone => hcovers k (mem_pendingPrepared.mpr ⟨hk, hnone⟩)

theorem not_retained {workId : Uuid} (h : s.retained workId = false) :
    s.preparedKeys workId = [] ∧ s.receiptsOf workId = [] := by
  simp only [Db.retained, Bool.or_eq_false_iff, Bool.not_eq_false', List.isEmpty_iff] at h
  exact ⟨by rw [Db.preparedKeys, h.1]; rfl, h.2⟩

theorem Ended.accounted {w : Work} (hs : Shape s) (h : Ended cfg mode s t w) : Accounted t w := by
  cases h with
  | @settled work attempt utc r validated held closed checked domain left =>
    subst left
    rcases checked.prepared with hp | hm
    · exact Or.inl (delivered_of_noPending hp)
    · obtain ⟨houtcome, hgiven⟩ := givenUp_of_manual utc hs held hm
      exact Or.inr ⟨by rw [houtcome]; rfl, hgiven⟩
  | @cancelled work now workMem queued kept ended left =>
    subst left
    left
    intro k hk
    have hnone : s.preparedKeys work.workId = [] := (not_retained kept).1
    have hk : k ∈ s.preparedKeys work.workId := hk
    rw [hnone] at hk
    cases hk

theorem trans_accounted (ht : Trans cfg mode s t) (hs : Shape s)
    (h : ∀ w ∈ s.works, w.state.terminal = true → Accounted s w) :
    ∀ w ∈ t.works, w.state.terminal = true → Accounted t w := by
  intro w hw hterm
  rcases trans_terminal ht hs hw hterm with hended | ⟨hw, hl⟩
  · exact hended.accounted hs
  · exact hl.accounted (h w hw hterm)

theorem Reachable.accounted (h : Reachable cfg s) {w : Work} (hw : w ∈ s.works)
    (ht : w.state.terminal = true) : Accounted s w := by
  have hboth : Shape s ∧ ∀ w ∈ s.works, w.state.terminal = true → Accounted s w := by
    refine h.transInv (I := fun s => Shape s ∧ ∀ w ∈ s.works, w.state.terminal = true → Accounted s w)
      (fun registry => ⟨shape_init registry, fun w hw => absurd hw (Table.not_mem_empty w)⟩)
      (fun s t henv hs => ⟨hs.1.congr henv.works henv.attempts (by rw [henv.owner]), ?_⟩)
      fun s t htrans hs => ⟨trans_shape htrans hs.1, trans_accounted htrans hs.1 hs.2⟩
    intro w hw hterm
    rw [henv.works] at hw
    exact (LeftAlone.of_eq henv.attempts henv.prepared henv.receipts).accounted (hs.2 w hw hterm)
  exact hboth.2 w hw ht

/-! ## When the runs ended -/

theorem runsTerminal_congr {workId : Uuid} (hr : t.receiptsOf workId = s.receiptsOf workId)
    (hg : t.registry = s.registry) : t.runsTerminal workId = s.runsTerminal workId := by
  simp only [Db.runsTerminal, Db.run, hr, hg]

/-- The runs of a work had ended when a transition ended it. -/
theorem Ended.runsTerminal {w : Work} (h : Ended cfg mode s t w) :
    t.runsTerminal w.workId = true := by
  cases h with
  | settled utc r validated held closed checked domain left =>
    subst left
    exact checked.terminal
  | @cancelled work now workMem queued kept ended left =>
    subst left
    have hnone : s.receiptsOf work.workId = [] := (not_retained kept).2
    have hsame : s.runsTerminal work.workId = true := by
      rw [Db.runsTerminal, hnone]
      rfl
    exact hsame

end FinDB.ProviderWork
