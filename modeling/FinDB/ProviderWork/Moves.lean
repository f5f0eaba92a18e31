import FinDB.ProviderWork.Invariants

/-! # What a transition does to a round, to a work and to the owner slot

Every write of `provider_work_attempt`, `provider_work` and the owner slot, read
off the transitions once. A round is only rewritten while it waits in the queue
or while it holds the provider; a settled one is never touched again. -/
namespace FinDB.ProviderWork
open FinDB.Lib Relation

variable {cfg : Config} {mode : Mode} {s t : Db}

/-! ## Rounds -/

/-- The row of one round before and after a transition from `s` to `t`. -/
inductive Moved (s t : Db) (a : Attempt) : Attempt → Prop where
  | kept : Moved s t a a
  | handed (now : Instant) (drain : Bool) (token : Uuid) (queued : a.state = .queued)
      (rotated : t.owner.generation = s.owner.generation + 1)
      (owned : t.owner.attemptId = some a.attemptId) :
      Moved s t a (a.handed .opened (some now) drain (s.owner.generation + 1) token)
  | resumed (drain : Bool) (token : Uuid) (held : s.owner.attemptId = some a.attemptId)
      (keeps : a.drainOnly = true → drain = true)
      (rotated : t.owner.generation = s.owner.generation + 1)
      (owned : t.owner.attemptId = some a.attemptId) :
      Moved s t a (a.handed (if a.state == .recoveryBlocked then .opened else a.state) a.startedAt
        drain (s.owner.generation + 1) token)
  | blocked (held : s.owner.attemptId = some a.attemptId) :
      Moved s t a { a with state := if a.state == .opened then .recoveryBlocked else a.state }
  | closed (held : s.owner.attemptId = some a.attemptId) (opened : a.state = .opened) :
      Moved s t a { a with state := .closed }
  | draining (held : s.owner.attemptId = some a.attemptId)
      (closed : a.state = .closed ∨ a.state = .draining) : Moved s t a { a with state := .draining }
  | settled (utc : Instant) (r : Settlement) (held : s.owner.attemptId = some a.attemptId)
      (closed : a.state = .closed ∨ a.state = .draining) :
      Moved s t a { a with
        state := .settled, outcome := some r.outcome, settledAt := some utc, proof := some r.proof,
        failureCode := r.failureCode }
  | cancelled (now : Instant) (queued : a.state = .queued) :
      Moved s t a { a with state := .settled, outcome := some .cancelled, settledAt := some now }
  | drains (queued : a.state = .queued) : Moved s t a { a with drainOnly := true }

/-- A round the transition added to the queue. -/
structure Added (s : Db) (a : Attempt) : Prop where
  fresh : ∀ b ∈ s.attempts, b.attemptId ≠ a.attemptId
  queued : a.state = .queued
  noGeneration : a.generation = none

theorem Moved.attemptId {a a' : Attempt} (h : Moved s t a a') : a'.attemptId = a.attemptId := by
  cases h <;> rfl

/-- A settled round stays as it is. -/
theorem Moved.eq_of_settled {a a' : Attempt} (h : Moved s t a a') (hs : a.state = .settled)
    (hfree : s.owner.attemptId ≠ some a.attemptId) : a' = a := by
  cases h with
  | kept => rfl
  | handed _ _ _ queued | cancelled _ queued | drains queued => rw [hs] at queued; cases queued
  | resumed _ _ held | blocked held | closed held | draining held | settled _ _ held =>
    exact absurd held hfree

/-- One held round is rewritten and every other stays. -/
theorem moved_modify {attempts : Table Attempt.attemptId} {a a' : Attempt} {f : Attempt → Attempt}
    (hf : ∀ r, (f r).attemptId = r.attemptId) (ha : a ∈ s.attempts) (hmove : Moved s t a (f a))
    (hrows : attempts = s.attempts.modify a.attemptId f hf) (h : a' ∈ attempts) :
    ∃ b ∈ s.attempts, Moved s t b a' := by
  rw [hrows] at h
  rcases (Table.mem_modify_row hf ha).mp h with ⟨hb, _⟩ | rfl
  · exact ⟨a', hb, .kept⟩
  · exact ⟨a, ha, hmove⟩

theorem moved_update {p : Attempt → Bool} {f : Attempt → Attempt} {a' : Attempt}
    (hf : ∀ r, (f r).attemptId = r.attemptId)
    (hmove : ∀ a, p a = true → Moved s t a (f a)) (h : a' ∈ s.attempts.update p f hf) :
    ∃ b ∈ s.attempts, Moved s t b a' := by
  obtain ⟨b, hb, rfl⟩ := Table.mem_update.mp h
  refine ⟨b, hb, ?_⟩
  split
  · rename_i hp
    exact hmove b hp
  · exact .kept

theorem Fresh.added {a : Attempt} {workId : Uuid} {n : Nat} {attempts}
    (fresh : Fresh a workId n) (ha : s.attempts.insert? a = some attempts) : Added s a :=
  ⟨Table.insert?_fresh ha, fresh.queued, fresh.noGeneration⟩

theorem queuedOf_state {workId : Uuid} {a : Attempt} (h : queuedOf workId a = true) :
    a.state = .queued := by
  simp only [queuedOf, Bool.and_eq_true, beq_iff_eq] at h
  exact h.2

/-- Every row of the next state was added or moved. -/
theorem trans_attempts (h : Trans cfg mode s t) {a' : Attempt} (ha' : a' ∈ t.attempts) :
    Added s a' ∨ ∃ a ∈ s.attempts, Moved s t a a' := by
  cases h with
  | enqueue _ _ _ _ fresh _ ha =>
    rcases (Table.mem_insert? ha).mp ha' with h | rfl
    · exact Or.inr ⟨a', h, .kept⟩
    · exact Or.inl (fresh.added ha)
  | hand now drain token host _ mem _ _ _ attemptQueued =>
    exact Or.inr (moved_modify (by intro _; rfl) mem (.handed now drain token attemptQueued rfl rfl)
      rfl ha')
  | resume now drain token host held keeps =>
    refine Or.inr ?_
    rcases (Table.mem_modify_row (by intro _; rfl) held.mem).mp ha' with ⟨hb, _⟩ | rfl
    · exact ⟨a', hb, .kept⟩
    · exact ⟨_, held.mem, .resumed drain token held.owned keeps rfl rfl⟩
  | block held =>
    exact Or.inr (moved_modify (by intro _; rfl) held.mem (.blocked held.owned) rfl ha')
  | close held opened =>
    exact Or.inr (moved_modify (by intro _; rfl) held.mem (.closed held.owned opened) rfl ha')
  | drain held closed =>
    exact Or.inr (moved_modify (by intro _; rfl) held.mem (.draining held.owned closed) rfl ha')
  | @retry work attempt a attempts utc r _ held closed _ fresh ha =>
    rcases (Table.mem_insert? ha).mp ha' with h | rfl
    · exact Or.inr (moved_modify (by intro _; rfl) held.mem (.settled utc r held.owned closed) rfl h)
    · refine Or.inl ⟨fun b hb hid => ?_, fresh.queued, fresh.noGeneration⟩
      -- settling keeps every id, so the new one is fresh for the rows before it too
      obtain ⟨c, hc, hcb⟩ : ∃ c ∈ (s.requeue attempt utc r).attempts, c.attemptId = b.attemptId := by
        by_cases hk : b.attemptId = attempt.attemptId
        · exact ⟨_, (Table.mem_modify_row (by intro _; rfl) held.mem).mpr (Or.inr rfl), hk.symm⟩
        · exact ⟨b, (Table.mem_modify_row (by intro _; rfl) held.mem).mpr (Or.inl ⟨hb, hk⟩), rfl⟩
      exact Table.insert?_fresh ha c hc (hcb.trans hid)
  | finish utc r _ held closed _ _ =>
    exact Or.inr (moved_modify (by intro _; rfl) held.mem (.settled utc r held.owned closed) rfl ha')
  | cancelQueued now _ _ _ _ =>
    exact Or.inr (moved_update (by intro _; rfl) (fun a hp => .cancelled now (queuedOf_state hp)) ha')
  | drainQueued workId =>
    exact Or.inr (moved_update (by intro _; rfl) (fun a hp => .drains (queuedOf_state hp)) ha')
  | reopen _ _ _ _ _ fresh ha =>
    rcases (Table.mem_insert? ha).mp ha' with h | rfl
    · exact Or.inr ⟨a', h, .kept⟩
    · exact Or.inl (fresh.added ha)
  | _ => exact Or.inr ⟨a', ha', .kept⟩

/-- The row of a round that was there before. -/
theorem trans_moved (h : Trans cfg mode s t) {a a' : Attempt} (ha : a ∈ s.attempts)
    (ha' : a' ∈ t.attempts) (hid : a'.attemptId = a.attemptId) : Moved s t a a' := by
  rcases trans_attempts h ha' with hadded | ⟨b, hb, hmove⟩
  · exact absurd hid.symm (hadded.fresh a ha)
  · have hba : b = a := Table.eq_of_key hb ha (hmove.attemptId.symm.trans hid)
    exact hba ▸ hmove

/-! ## Works -/

/-- The work holds the provider. -/
def Holds (s : Db) (w : Work) : Prop := ∃ a, Held s w a

/-- The row of one work before and after a transition from `s`. -/
inductive WorkMoved (mode : Mode) (s : Db) (w : Work) : Work → Prop where
  | kept : WorkMoved mode s w w
  | started (queued : w.state = .queued) : WorkMoved mode s w { w with state := .running }
  | resumed (holds : Holds s w) : WorkMoved mode s w { w with state := .running }
  | blocked (holds : Holds s w) : WorkMoved mode s w { w with state := .recoveryBlocked }
  | frozen (m : Manifest) (accepting : Accepting s w.workId) (unfrozen : w.manifest = none) :
      WorkMoved mode s w { w with manifest := some m }
  | requeued (holds : Holds s w) : WorkMoved mode s w { w with state := .queued }
  | settled (holds : Holds s w) (utc : Instant) (r : Settlement) (final : r.outcome ≠ .retry)
      (domain : mode.strict → ItemEnded s w) :
      WorkMoved mode s w { w with state := r.outcome.workState, completedAt := some utc }
  | cancelled (now : Instant) (queued : w.state = .queued) (ended : ItemEnded s w) :
      WorkMoved mode s w { w with state := .cancelled, completedAt := some now }
  | reopened (allowed : mode.reopens) (daily : w.kind = .daily)
      (ended : w.state = .failed ∨ w.state = .partly) :
      WorkMoved mode s w { w with state := .queued, completedAt := none }
  | calendarClosed (utc : Instant) (daily : w.kind = .daily)
      (unresolved : w.state = .queued ∨ w.state = .partly ∨ w.state = .failed) :
      WorkMoved mode s w { w with state := .calendarClosed, completedAt := some utc }

theorem WorkMoved.workId {w w' : Work} (h : WorkMoved mode s w w') : w'.workId = w.workId := by
  cases h <;> rfl

/-- A row that `enqueue` added. -/
structure Enqueued (s t : Db) (w : Work) : Prop where
  only : ∀ v ∈ t.works, v ∈ s.works ∨ v = w
  fresh : ∀ v ∈ s.works, v.workId ≠ w.workId
  freshKey : ∀ v ∈ s.works, v.stableKey ≠ w.stableKey
  queued : w.state = .queued
  row : HistoricalRow s w

/-- One work is rewritten and every other stays. -/
theorem workMoved_modify {works : Table Work.workId} {w w' : Work} {g : Work → Work}
    (hg : ∀ r, (g r).workId = r.workId) (hw : w ∈ s.works) (hmove : WorkMoved mode s w (g w))
    (hrows : works = s.works.modify w.workId g hg) (h : w' ∈ works) :
    ∃ v ∈ s.works, WorkMoved mode s v w' := by
  rw [hrows] at h
  rcases (Table.mem_modify_row hg hw).mp h with ⟨hv, _⟩ | rfl
  · exact ⟨w', hv, .kept⟩
  · exact ⟨w, hw, hmove⟩

/-- Every work of the next state was enqueued or moved. -/
theorem trans_works (h : Trans cfg mode s t) {w' : Work} (hw' : w' ∈ t.works) :
    Enqueued s t w' ∨ ∃ w ∈ s.works, WorkMoved mode s w w' := by
  cases h with
  | enqueue _ queued freshKey row _ hw _ =>
    rcases (Table.mem_insert? hw).mp hw' with h | rfl
    · exact Or.inr ⟨w', h, .kept⟩
    · exact Or.inl ⟨fun v hv => (Table.mem_insert? hw).mp hv, Table.insert?_fresh hw, freshKey,
        queued, row⟩
  | hand _ _ _ _ _ _ workMem _ queued _ =>
    exact Or.inr (workMoved_modify (by intro _; rfl) workMem (.started queued) rfl hw')
  | resume _ _ _ _ held _ =>
    exact Or.inr (workMoved_modify (by intro _; rfl) held.workMem (.resumed ⟨_, held⟩) rfl hw')
  | block held =>
    exact Or.inr (workMoved_modify (by intro _; rfl) held.workMem (.blocked ⟨_, held⟩) rfl hw')
  | freeze m workMem accepting unfrozen =>
    exact Or.inr (workMoved_modify (by intro _; rfl) workMem (.frozen m accepting unfrozen) rfl hw')
  | @retry work attempt a attempts utc r _ held _ _ _ _ =>
    refine Or.inr (workMoved_modify (g := ({ · with state := .queued })) (by intro _; rfl)
      held.workMem (.requeued ⟨_, held⟩) ?_ hw')
    rw [← held.ofWork]
    rfl
  | @finish work attempt utc r validated held _ checked domain =>
    refine Or.inr (workMoved_modify
      (g := fun w => { w with state := r.outcome.workState, completedAt := some utc })
      (by intro _; rfl) held.workMem (.settled ⟨_, held⟩ utc r checked.final domain) ?_ hw')
    rw [← held.ofWork]
    rfl
  | cancelQueued now workMem queued _ ended =>
    exact Or.inr (workMoved_modify (by intro _; rfl) workMem (.cancelled now queued ended) rfl hw')
  | reopen _ workMem allowed daily ended _ _ =>
    exact Or.inr (workMoved_modify (by intro _; rfl) workMem (.reopened allowed daily ended) rfl hw')
  | calendarClose utc workMem daily unresolved =>
    exact Or.inr (workMoved_modify (by intro _; rfl) workMem (.calendarClosed utc daily unresolved)
      rfl hw')
  | _ => exact Or.inr ⟨w', hw', .kept⟩

/-- The row of a work that was there before. -/
theorem trans_workMoved (h : Trans cfg mode s t) {w w' : Work} (hw : w ∈ s.works)
    (hw' : w' ∈ t.works) (hid : w'.workId = w.workId) : WorkMoved mode s w w' := by
  rcases trans_works h hw' with hnew | ⟨v, hv, hmove⟩
  · exact absurd hid.symm (hnew.fresh w hw)
  · have hvw : v = w := Table.eq_of_key hv hw (hmove.workId.symm.trans hid)
    exact hvw ▸ hmove

/-! ## The owner slot -/

/-- The slot keeps its round and generation, is freed, or rotates. -/
theorem trans_owner (h : Trans cfg mode s t) :
    (t.owner.generation = s.owner.generation ∧
      (t.owner.attemptId = s.owner.attemptId ∨ t.owner.attemptId = none)) ∨
    t.owner.generation = s.owner.generation + 1 := by
  cases h with
  | hand | resume => exact Or.inr rfl
  | touch o sameAttempt sameGeneration _ => exact Or.inl ⟨sameGeneration, Or.inl sameAttempt⟩
  | retry | finish => exact Or.inl ⟨rfl, Or.inr rfl⟩
  | _ => exact Or.inl ⟨rfl, Or.inl rfl⟩

end FinDB.ProviderWork
