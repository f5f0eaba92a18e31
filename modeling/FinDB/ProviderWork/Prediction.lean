import FinDB.ProviderWork.Projection

/-! # What the page predicts

The page and the candidate query of `claim` decide on their own which rounds would
run. The page looks controls up by their key alone and does not ask for the state of
the work; with controls that carry the provider of their key both decide alike, and
position 1 is the round a claim selects. -/
namespace FinDB.ProviderWork
open FinDB.Lib

variable {cfg : Config} {now : Instant} {s t : Db} {scheduling : Proof → Option Batch}

/-! ## One round -/

/-- A control is stored for a profile and under the provider its key names. -/
def ControlsNamed (cfg : Config) (s : Db) : Prop :=
  ∀ profile control, s.registry.controls profile = some control →
    profile.isSome = true ∧ control.provider = cfg.provider

theorem needsDrain_of (work : Work) (attempt : Attempt) :
    (PendingRow.of scheduling s work attempt).needsDrain = needsDrain s work attempt := by
  unfold PendingRow.needsDrain needsDrain
  simp only [PendingRow.of]
  cases attempt.proof.any (·.sourceErrorPending) <;> simp

theorem controlRunning_named (h : ControlsNamed cfg s) (work : Work) :
    ((s.registry.controls work.executionProfile).any fun c => c.desiredRunning && !c.retired) =
      controlRunning cfg s work := by
  unfold controlRunning
  cases hc : s.registry.controls work.executionProfile with
  | none => simp
  | some control =>
    obtain ⟨hprofile, hprovider⟩ := h _ _ hc
    simp [hprofile, hprovider]

/-- A queued round waits with a queued work, unless the calendar closed it. -/
theorem Shape.queued_of_round (h : Shape s) {work : Work} {attempt : Attempt}
    (ha : attempt ∈ s.attempts) (hw : work ∈ s.works) (hof : attempt.workId = work.workId)
    (hst : attempt.state = .queued) : work.state = .queued ∨ work.state = .calendarClosed := by
  obtain ⟨last, hr⟩ := h.rounds work hw
  have hlast : attempt = last := hr.last_of_unsettled ha hof (by rw [hst]; intro he; cases he)
  have htail := hr.tail
  rw [← hlast] at htail
  cases hwork : work.state with
  | queued => exact Or.inl rfl
  | calendarClosed => exact Or.inr rfl
  | running | recoveryBlocked =>
    rw [hwork] at htail
    have hactive := htail.1
    rw [hst] at hactive
    cases hactive
  | completed | partly | failed | cancelled =>
    rw [hwork] at htail
    have hsettled := htail.1
    rw [hst] at hsettled
    cases hsettled

/-- The booleans of the page are the WHERE clause of the query. -/
theorem runnable_of (h : ControlsNamed cfg s) {work : Work} {attempt : Attempt}
    (hqueued : attempt.state = .queued → work.state = .queued) :
    (PendingRow.of scheduling s work attempt).runnable cfg now s =
      eligible cfg now s work attempt := by
  unfold PendingRow.runnable PendingRow.suspended PendingRow.cooldownBlocked
    PendingRow.windowClosed eligible
  rw [needsDrain_of]
  change (attempt.state == .queued && decide (attempt.notBefore ≤ now) &&
    !(work.kind == .daily && !((s.registry.controls work.executionProfile).any fun c =>
      c.desiredRunning && !c.retired) && !needsDrain s work attempt) &&
    !(s.owner.cooling now && !needsDrain s work attempt && work.kind != .rerun) &&
    !(work.kind == .daily && !dailyWindow cfg.clock cfg.provider now &&
      !needsDrain s work attempt)) = _
  rw [controlRunning_named h]
  by_cases hst : attempt.state = .queued
  · rw [hst, hqueued hst]
    cases decide (attempt.notBefore ≤ now) <;> cases work.kind <;>
      cases needsDrain s work attempt <;> cases s.owner.cooling now <;>
      cases dailyWindow cfg.clock cfg.provider now <;> cases controlRunning cfg s work <;> rfl
  · rw [beq_false_of_ne hst]
    simp

/-! ## The loop -/

section Loop
variable {states : List (Uuid × Bool)}

/-- A row is shown for a round, and its position says whether the round would run. -/
theorem mem_showRows {taken : Nat} {rows : List PendingRow} {shown : QueueRow}
    (h : shown ∈ showRows cfg now s states taken rows) :
    ∃ row ∈ rows, ∃ position, shown = row.show cfg now s states position ∧
      position.isSome = row.runnable cfg now s := by
  induction rows generalizing taken with
  | nil => cases h
  | cons row rest ih =>
    unfold showRows at h
    split at h
    · rename_i hrun
      rcases List.mem_cons.mp h with rfl | h
      · exact ⟨row, List.mem_cons_self, _, rfl, hrun.symm⟩
      · obtain ⟨r, hr, hshown⟩ := ih h
        exact ⟨r, List.mem_cons_of_mem _ hr, hshown⟩
    · rename_i hrun
      rcases List.mem_cons.mp h with rfl | h
      · exact ⟨row, List.mem_cons_self, _, rfl, by simpa using hrun⟩
      · obtain ⟨r, hr, hshown⟩ := ih h
        exact ⟨r, List.mem_cons_of_mem _ hr, hshown⟩

/-- Every round is shown. -/
theorem show_mem (taken : Nat) {rows : List PendingRow} {row : PendingRow} (h : row ∈ rows) :
    ∃ position, row.show cfg now s states position ∈ showRows cfg now s states taken rows ∧
      position.isSome = row.runnable cfg now s := by
  induction rows generalizing taken with
  | nil => cases h
  | cons r rest ih =>
    unfold showRows
    split
    · rename_i hrun
      rcases List.mem_cons.mp h with rfl | h
      · exact ⟨_, List.mem_cons_self, hrun.symm⟩
      · obtain ⟨position, hmem, hp⟩ := ih (taken + 1) h
        exact ⟨position, List.mem_cons_of_mem _ hmem, hp⟩
    · rename_i hrun
      rcases List.mem_cons.mp h with rfl | h
      · exact ⟨none, List.mem_cons_self, by simpa using hrun⟩
      · obtain ⟨position, hmem, hp⟩ := ih taken h
        exact ⟨position, List.mem_cons_of_mem _ hmem, hp⟩

theorem position_gt {taken n : Nat} {rows : List PendingRow} {shown : QueueRow}
    (h : shown ∈ showRows cfg now s states taken rows) (hp : shown.position = some n) :
    taken < n := by
  induction rows generalizing taken with
  | nil => cases h
  | cons row rest ih =>
    unfold showRows at h
    split at h
    · rcases List.mem_cons.mp h with rfl | h
      · cases hp
        exact Nat.lt_succ_self taken
      · exact Nat.lt_of_succ_lt (ih h)
    · rcases List.mem_cons.mp h with rfl | h
      · cases hp
      · exact ih h

/-- The first position goes to the first runnable round. -/
theorem position_least {taken : Nat} {rows : List PendingRow} {shown : QueueRow}
    (hsorted : rows.Pairwise fun a b => a.queueOrder ≤ b.queueOrder)
    (h : shown ∈ showRows cfg now s states taken rows) (hp : shown.position = some (taken + 1)) :
    ∀ row ∈ rows, row.runnable cfg now s = true → shown.queueOrder ≤ row.queueOrder := by
  induction rows generalizing taken with
  | nil => cases h
  | cons row rest ih =>
    obtain ⟨hhead, hrest⟩ := List.pairwise_cons.mp hsorted
    intro r hr hrun
    unfold showRows at h
    split at h
    · rcases List.mem_cons.mp h with rfl | h
      · rcases List.mem_cons.mp hr with rfl | hr
        · exact le_rfl
        · exact hhead r hr
      · exact absurd (position_gt h hp) (lt_irrefl _)
    · rename_i hnot
      rcases List.mem_cons.mp h with rfl | h
      · cases hp
      · rcases List.mem_cons.mp hr with rfl | hr
        · exact absurd hrun hnot
        · exact ih hrest h hp r hr hrun

theorem exists_position (taken : Nat) {rows : List PendingRow} {row : PendingRow} (h : row ∈ rows)
    (hrun : row.runnable cfg now s = true) :
    ∃ shown ∈ showRows cfg now s states taken rows, shown.position = some (taken + 1) := by
  induction rows generalizing taken with
  | nil => cases h
  | cons r rest ih =>
    unfold showRows
    split
    · exact ⟨_, List.mem_cons_self, rfl⟩
    · rename_i hnot
      rcases List.mem_cons.mp h with rfl | h
      · exact absurd hrun hnot
      · obtain ⟨shown, hmem, hp⟩ := ih taken h
        exact ⟨shown, List.mem_cons_of_mem _ hmem, hp⟩

end Loop

/-! ## The page and the claim -/

/-- The rounds the page gives a position. -/
def runnableRows (rows : List QueueRow) : Set (Uuid × Nat) :=
  {round | ∃ row ∈ rows, row.position.isSome = true ∧ (row.workId, row.queueOrder) = round}

/-- The rounds the query of a claim would return without its limit. -/
def eligibleRounds (cfg : Config) (now : Instant) (s : Db) : Set (Uuid × Nat) :=
  {round | ∃ attempt ∈ s.attempts, ∃ work ∈ s.works, attempt.workId = work.workId ∧
    eligible cfg now s work attempt = true ∧ (work.workId, attempt.queueOrder) = round}

theorem pendingRounds_runnable (hs : Shape s) (hc : ControlsNamed cfg s) {work : Work}
    {attempt : Attempt} (h : (work, attempt) ∈ pendingRounds s) :
    (PendingRow.of scheduling s work attempt).runnable cfg now s =
      eligible cfg now s work attempt := by
  obtain ⟨ha, hfind, _, hclosed⟩ := mem_pendingRounds.mp h
  obtain ⟨hw, hof⟩ := Table.find?_eq_some.mp hfind
  refine runnable_of hc fun hst => ?_
  exact (hs.queued_of_round ha hw hof.symm hst).resolve_right hclosed

theorem eligible_pending {work : Work} {attempt : Attempt} (ha : attempt ∈ s.attempts)
    (hw : work ∈ s.works) (hof : attempt.workId = work.workId)
    (he : eligible cfg now s work attempt = true) : (work, attempt) ∈ pendingRounds s := by
  obtain ⟨hwork, hattempt⟩ := eligible_queued he
  refine mem_pendingRounds.mpr ⟨ha, Table.find?_eq_some.mpr ⟨hw, hof.symm⟩, ?_, ?_⟩
  · rw [hattempt]; intro h; cases h
  · rw [hwork]; intro h; cases h

theorem pendingRounds_sorted :
    ((pendingRounds s).map fun r => PendingRow.of scheduling s r.1 r.2).Pairwise
      fun a b => a.queueOrder ≤ b.queueOrder := by
  let le : Work × Attempt → Work × Attempt → Prop := fun x y => x.2.queueOrder ≤ y.2.queueOrder
  have : Std.Total le := ⟨fun x y => le_total x.2.queueOrder y.2.queueOrder⟩
  have : IsTrans _ le := ⟨fun _ _ _ hxy hyz => le_trans hxy hyz⟩
  exact List.pairwise_map.mpr (List.pairwise_insertionSort le _)

/-- What a row of the page is about. -/
theorem mem_projection {shown : QueueRow} (h : shown ∈ projection cfg now s scheduling) :
    ∃ work attempt, (work, attempt) ∈ pendingRounds s ∧ shown.workId = work.workId ∧
      shown.queueOrder = attempt.queueOrder ∧
      shown.position.isSome = (PendingRow.of scheduling s work attempt).runnable cfg now s := by
  obtain ⟨row, hrow, position, rfl, hp⟩ := mem_showRows h
  obtain ⟨⟨work, attempt⟩, hmem, rfl⟩ := List.mem_map.mp hrow
  exact ⟨work, attempt, hmem, rfl, rfl, hp⟩

/-- Every pending round has its row. -/
theorem projection_shows (cfg : Config) (now : Instant) (scheduling : Proof → Option Batch)
    {work : Work} {attempt : Attempt} (h : (work, attempt) ∈ pendingRounds s) :
    ∃ shown ∈ projection cfg now s scheduling, shown.workId = work.workId ∧
      shown.queueOrder = attempt.queueOrder ∧
      shown.position.isSome = (PendingRow.of scheduling s work attempt).runnable cfg now s := by
  obtain ⟨position, hshown, hp⟩ := show_mem 0
    (List.mem_map_of_mem (f := fun r => PendingRow.of scheduling s r.1 r.2) h)
  exact ⟨_, hshown, rfl, rfl, hp⟩

theorem runnableRows_eq (hs : Shape s) (hc : ControlsNamed cfg s) :
    runnableRows (projection cfg now s scheduling) = eligibleRounds cfg now s := by
  ext round
  constructor
  · rintro ⟨shown, hshown, hsome, rfl⟩
    obtain ⟨work, attempt, hmem, hwork, horder, hp⟩ := mem_projection hshown
    obtain ⟨ha, hfind, _, _⟩ := mem_pendingRounds.mp hmem
    obtain ⟨hw, hof⟩ := Table.find?_eq_some.mp hfind
    rw [pendingRounds_runnable hs hc hmem] at hp
    exact ⟨attempt, ha, work, hw, hof.symm, hp ▸ hsome, by rw [hwork, horder]⟩
  · rintro ⟨attempt, ha, work, hw, hof, he, rfl⟩
    have hmem := eligible_pending ha hw hof he
    obtain ⟨shown, hshown, hwork, horder, hp⟩ := projection_shows cfg now scheduling hmem
    rw [pendingRounds_runnable hs hc hmem] at hp
    exact ⟨shown, hshown, hp.trans he, by rw [hwork, horder]⟩

/-- Position 1 is the head of the queue. -/
theorem position_one_head (hs : Shape s) (hc : ControlsNamed cfg s) {shown : QueueRow}
    (h : shown ∈ projection cfg now s scheduling) (hp : shown.position = some 1) :
    ∃ work attempt, Head cfg now s work attempt ∧ shown.workId = work.workId ∧
      shown.queueOrder = attempt.queueOrder := by
  obtain ⟨work, attempt, hmem, hwork, horder, hrun⟩ := mem_projection h
  obtain ⟨ha, hfind, _, _⟩ := mem_pendingRounds.mp hmem
  obtain ⟨hw, hof⟩ := Table.find?_eq_some.mp hfind
  rw [pendingRounds_runnable hs hc hmem, hp] at hrun
  refine ⟨work, attempt, ⟨ha, hw, hof.symm, hrun.symm, fun a ha w hw hof he => ?_⟩, hwork, horder⟩
  have hmem := eligible_pending ha hw hof he
  rw [← horder]
  refine position_least pendingRounds_sorted h hp (.of scheduling s w a)
    (List.mem_map_of_mem (f := fun r => PendingRow.of scheduling s r.1 r.2) hmem) ?_
  rw [pendingRounds_runnable hs hc hmem, he]

theorem Head.position_one (scheduling : Proof → Option Batch) (hs : Shape s) (hc : ControlsNamed cfg s) {work : Work}
    {attempt : Attempt} (h : Head cfg now s work attempt) :
    ∃ shown ∈ projection cfg now s scheduling, shown.position = some 1 := by
  have hmem := eligible_pending h.mem h.workMem h.ofWork h.runnable
  refine exists_position 0
    (List.mem_map_of_mem (f := fun r => PendingRow.of scheduling s r.1 r.2) hmem) ?_
  rw [pendingRounds_runnable hs hc hmem, h.runnable]

/-- The row is about the round a claim has answered with. -/
def Predicts (s : Db) (row : QueueRow) (c : Claimed) : Prop :=
  row.workId = c.work.workId ∧ ∃ attempt ∈ s.attempts,
    attempt.queueOrder = row.queueOrder ∧ attempt.attemptId = c.attempt.attemptId

/-- **The prediction.** While the provider is idle, nothing waits to be reconciled and
every control carries the provider of its key, the rounds with a position are those the
query of a claim would return, and a claim whose scope covers the queue answers with
the row at position 1, or with nothing when no row has it. -/
theorem projection_predicts (scheduling : Proof → Option Batch) {utc : Instant} (hs : Reachable cfg s)
    (idle : s.owner.attemptId = none) (reconciled : reconcileCancelledQueue cfg now utc s = s)
    (hc : ControlsNamed cfg s) :
    runnableRows (projection cfg now s scheduling) = eligibleRounds cfg now s ∧
    ∀ token r t answer, (∀ work ∈ s.works, r.admits work = true) →
      claim cfg now utc token r s = .ok (t, answer) →
      (∀ row ∈ projection cfg now s scheduling, row.position = some 1 →
        ∃ c, answer = some c ∧ Predicts s row c) ∧
      (∀ c, answer = some c →
        ∃ row ∈ projection cfg now s scheduling, row.position = some 1 ∧ Predicts s row c) := by
  refine ⟨runnableRows_eq hs.shape hc, fun token r t answer hscope h => ?_⟩
  cases hfirst : firstInQueue (candidates cfg now s) with
  | none =>
    obtain ⟨hanswer, _⟩ := claim_no_head idle h (by rw [reconciled]; exact hfirst)
    refine ⟨fun row hrow hp => ?_, fun c hsome => ?_⟩
    · obtain ⟨work, attempt, hhead, _⟩ := position_one_head hs.shape hc hrow hp
      exact absurd hhead (no_head hfirst work attempt)
    · rw [hanswer] at hsome
      cases hsome
  | some first =>
    obtain ⟨work, attempt⟩ := first
    have hhead := firstInQueue_head hfirst
    rcases claim_obtains idle h (by rw [reconciled]; exact hfirst) with
      ⟨_, c, hanswer, hwork, hattempt⟩ | ⟨hnot, _, _⟩
    · have hrows : ∀ row ∈ projection cfg now s scheduling, row.position = some 1 →
          Predicts s row c := by
        intro row hrow hp
        obtain ⟨w, a, hhead', hrw, hra⟩ := position_one_head hs.shape hc hrow hp
        obtain ⟨rfl, rfl⟩ := hhead.unique hs.ordered.unique hhead'
        exact ⟨hrw.trans hwork.symm, a, hhead.mem, hra.symm, hattempt.symm⟩
      refine ⟨fun row hrow hp => ⟨c, hanswer, hrows row hrow hp⟩, fun c' hsome => ?_⟩
      rw [hanswer] at hsome
      cases hsome
      obtain ⟨row, hrow, hp⟩ := hhead.position_one scheduling hs.shape hc
      exact ⟨row, hrow, hp, hrows row hrow hp⟩
    · rw [hscope work hhead.workMem] at hnot
      cases hnot

/-- A daily work in the queue, under a registry. -/
def dailyQueue (registry : Registry) : Db :=
  after (utcConfig .twelveData) eodRegistry [
    .enqueue (40 * day) (1, 2) ["us_equity_eod"]
      ⟨.daily .pilot "us_equity_eod" 39, .daily, "us_equity_eod", some 39, some .pilot, Scope.empty,
        none⟩,
    .setRegistry registry]

/-- The control of Twelve Data, and no other. -/
def twelveDataControl : Registry :=
  { eodRegistry with
    controls := fun profile => if profile = some .pilot then some ⟨.twelveData, true, false⟩ else none }

theorem projection_predicts_daily :
    ∃ t c, claim (utcConfig .twelveData) (40 * day) (40 * day) 7 (hostClaim false)
        (dailyQueue twelveDataControl) = .ok (t, some c) ∧
      ∃ row ∈ projection (utcConfig .twelveData) (40 * day) (dailyQueue twelveDataControl)
          fun _ => none,
        row.position = some 1 ∧ Predicts (dailyQueue twelveDataControl) row c := by
  refine ⟨_, _, rfl, ?_⟩
  have hnamed : ControlsNamed (utcConfig .twelveData) (dailyQueue twelveDataControl) := by
    intro profile control h
    change (if profile = some .pilot then some (⟨.twelveData, true, false⟩ : Control) else none) =
      some control at h
    split at h
    · rename_i hp
      cases h
      rw [hp]
      exact ⟨rfl, rfl⟩
    · cases h
  have hall := (projection_predicts (fun _ => none) (reachable_runAll _ _) rfl
    (rfl : reconcileCancelledQueue (utcConfig .twelveData) (40 * day) (40 * day)
      (dailyQueue twelveDataControl) = dailyQueue twelveDataControl) hnamed).2 7 (hostClaim false)
    _ _ (fun work hw => by cases List.mem_singleton.mp hw; rfl) rfl
  exact hall.2 _ rfl

/-- A control that names another provider is looked up by the page alone: it shows the
round at position 1 and the query does not return it. -/
theorem projection_ignores_control_provider :
    let s := dailyQueue { eodRegistry with controls := fun _ => some ⟨.finlab, true, false⟩ }
    Reachable (utcConfig .twelveData) s ∧ s.owner.attemptId = none ∧
    reconcileCancelledQueue (utcConfig .twelveData) (40 * day) (40 * day) s = s ∧
    runnableRows (projection (utcConfig .twelveData) (40 * day) s fun _ => none) ≠
      eligibleRounds (utcConfig .twelveData) (40 * day) s := by
  refine ⟨reachable_runAll _ _, rfl, rfl, fun heq => ?_⟩
  have hrow : ((1 : Uuid), 1) ∈ runnableRows (projection (utcConfig .twelveData) (40 * day)
      (dailyQueue { eodRegistry with controls := fun _ => some ⟨.finlab, true, false⟩ })
      fun _ => none) :=
    ⟨_, List.mem_singleton.mpr rfl, rfl, rfl⟩
  rw [heq] at hrow
  obtain ⟨attempt, ha, work, hw, _, he, _⟩ := hrow
  cases List.mem_singleton.mp ha
  cases List.mem_singleton.mp hw
  cases he

end FinDB.ProviderWork
