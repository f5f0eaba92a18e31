import FinDB.ProviderWork.Fifo

/-! # Replayed settlements

A settled round is never written again, and the identity it was settled with was
given to no other round. So a lost acknowledgement of `close` or `settle` can be
asked for again in any later state: the endpoint finds the round, compares what it
recorded, and answers without writing. -/
namespace FinDB.ProviderWork
open FinDB.Lib Relation

variable {cfg : Config} {mode : Mode} {s t u : Db}

/-! ## Identities -/

/-- The held round carries the identity of the slot, and no two rounds share a
generation. -/
structure Issued (s : Db) : Prop where
  held : ∀ a ∈ s.attempts, s.owner.attemptId = some a.attemptId →
    a.generation = some s.owner.generation ∧ a.token = s.owner.token
  once : ∀ a ∈ s.attempts, ∀ b ∈ s.attempts, ∀ g, a.generation = some g → b.generation = some g →
    a.attemptId = b.attemptId

/-- The identity of a round moves only when the slot rotates. -/
theorem Moved.identity {a a' : Attempt} (h : Moved s t a a') :
    (a'.generation = a.generation ∧ a'.token = a.token) ∨
      t.owner.generation = s.owner.generation + 1 := by
  cases h with
  | handed _ _ _ _ rotated | resumed _ _ _ _ rotated => exact Or.inr rotated
  | _ => exact Or.inl ⟨rfl, rfl⟩

/-- Without a rotation the slot keeps its identity or is freed. -/
theorem trans_slot (h : Trans cfg mode s t) (hg : t.owner.generation = s.owner.generation) :
    t.owner.attemptId = none ∨
      (t.owner.attemptId = s.owner.attemptId ∧ t.owner.token = s.owner.token) := by
  cases h with
  | hand | resume => exact absurd hg (Nat.succ_ne_self _)
  | touch o sameAttempt _ sameToken => exact Or.inr ⟨sameAttempt, sameToken⟩
  | retry | finish => exact Or.inl rfl
  | _ => exact Or.inr ⟨rfl, rfl⟩

theorem trans_held (h : Trans cfg mode s t) (hs : Shape s) (hi : Issued s) :
    ∀ a ∈ t.attempts, t.owner.attemptId = some a.attemptId →
      a.generation = some t.owner.generation ∧ a.token = t.owner.token := by
  intro a' ha' hown
  by_cases hg : t.owner.generation = s.owner.generation
  · rcases trans_slot h hg with hfree | ⟨hsame, htoken⟩
    · rw [hfree] at hown
      cases hown
    · rw [hsame] at hown
      obtain ⟨b, hb, hid⟩ := hs.ownedMem _ hown
      have hmove := trans_moved h hb ha' hid.symm
      rcases hmove.identity with ⟨hgen, htok⟩ | hrot
      · obtain ⟨hheld, hheldTok⟩ := hi.held b hb (by rw [hown, hid])
        exact ⟨by rw [hgen, hheld, hg], by rw [htok, hheldTok, htoken]⟩
      · omega
  · cases h with
    | @hand work attempt now drain token host idle mem workMem ofWork queued attemptQueued =>
      rcases (Table.mem_modify_row (by intro _; rfl) mem).mp ha' with ⟨_, hne⟩ | rfl
      · exact absurd (Option.some.inj hown).symm hne
      · exact ⟨rfl, rfl⟩
    | @resume work attempt now drain token host held keeps =>
      rcases (Table.mem_modify_row (by intro _; rfl) held.mem).mp ha' with ⟨_, hne⟩ | rfl
      · exact absurd (Option.some.inj hown).symm hne
      · exact ⟨rfl, rfl⟩
    | touch o _ sameGeneration => exact absurd sameGeneration hg
    | _ => exact absurd rfl hg

theorem trans_once (h : Trans cfg mode s t) (hgen : Generations s) (hi : Issued s) :
    ∀ a ∈ t.attempts, ∀ b ∈ t.attempts, ∀ g, a.generation = some g → b.generation = some g →
      a.attemptId = b.attemptId := by
  -- where the generation of a round comes from
  have hfrom : ∀ a' ∈ t.attempts, ∀ g, a'.generation = some g →
      (∃ a ∈ s.attempts, a.attemptId = a'.attemptId ∧ a.generation = some g) ∨
        (g = s.owner.generation + 1 ∧ t.owner.attemptId = some a'.attemptId) := by
    intro a' ha' g hg
    rcases trans_attempts h ha' with hadded | ⟨a, ha, hmove⟩
    · rw [hadded.noGeneration] at hg
      cases hg
    · rcases hmove.generation with hsame | ⟨hnew, hrot, hown⟩
      · exact Or.inl ⟨a, ha, hmove.attemptId.symm, hsame ▸ hg⟩
      · rw [hnew] at hg
        exact Or.inr ⟨by rw [← Option.some.inj hg, hrot], by rw [hown, hmove.attemptId]⟩
  intro a' ha' b' hb' g hga hgb
  rcases hfrom a' ha' g hga with ⟨a, ha, hida, hg⟩ | ⟨hnew, howna⟩
  · rcases hfrom b' hb' g hgb with ⟨b, hb, hidb, hg'⟩ | ⟨hnew, _⟩
    · rw [← hida, ← hidb]
      exact hi.once a ha b hb g hg hg'
    · have hle := hgen.le a ha g hg
      omega
  · rcases hfrom b' hb' g hgb with ⟨b, hb, _, hg'⟩ | ⟨_, hownb⟩
    · have hle := hgen.le b hb g hg'
      omega
    · rw [howna] at hownb
      exact Option.some.inj hownb

theorem Reachable.issued (h : Reachable cfg s) : Issued s := by
  have hall : Shape s ∧ Generations s ∧ Issued s := by
    refine h.transInv (I := fun s => Shape s ∧ Generations s ∧ Issued s) (fun registry => ?_)
      (fun s t henv hs => ?_) fun s t ht hs => ?_
    · have hnone : ∀ a, ¬ a ∈ (Db.init registry).attempts := Table.not_mem_empty
      refine ⟨shape_init registry, ⟨?_, ?_⟩, ⟨?_, ?_⟩⟩
      · exact fun a ha => absurd ha (hnone a)
      · exact fun a ha => absurd ha (hnone a)
      · exact fun a ha => absurd ha (hnone a)
      · exact fun a ha => absurd ha (hnone a)
    · obtain ⟨hshape, hgen, hissued⟩ := hs
      refine ⟨hshape.congr henv.works henv.attempts (by rw [henv.owner]), ⟨?_, ?_⟩, ⟨?_, ?_⟩⟩
      · rw [henv.attempts, henv.owner]; exact hgen.le
      · rw [henv.attempts, henv.owner]; exact hgen.current
      · rw [henv.attempts, henv.owner]; exact hissued.held
      · rw [henv.attempts]; exact hissued.once
    · obtain ⟨hshape, hgen, hissued⟩ := hs
      exact ⟨trans_shape ht hshape, trans_generations ht hgen, trans_held ht hshape hissued,
        trans_once ht hgen hissued⟩
  exact hall.2.2

/-! ## Settled rounds -/

/-- Settled rounds stay as they are, and works keep their identity. -/
def KeepsSettled (s t : Db) : Prop :=
  (∀ a ∈ s.attempts, a.state = .settled → a ∈ t.attempts) ∧ KeepsWorks s t

theorem trans_keepsSettled (h : Trans cfg mode s t) (hs : Shape s) : KeepsSettled s t := by
  refine ⟨fun a ha hset => ?_, trans_keepsWorks h⟩
  obtain ⟨a', ha', hid⟩ := trans_keepsAttempts h a ha
  have hfree : s.owner.attemptId ≠ some a.attemptId := by
    intro hown
    have hactive := (hs.active ha).mpr hown
    rw [hset] at hactive
    cases hactive
  rw [← (trans_moved h ha ha' hid).eq_of_settled hset hfree]
  exact ha'

theorem Steps.keepsSettled (h : Steps cfg s t) (hr : Reachable cfg s) : KeepsSettled s t := by
  refine h.transRel (I := Shape) (fun s => ⟨fun _ ha _ => ha, fun w hw => ⟨w, hw, .refl w⟩⟩)
    (fun s t u hst htu => ⟨fun a ha hset => htu.1 a (hst.1 a ha hset) hset, fun w hw => ?_⟩)
    (fun _ _ henv hs => hs.congr henv.works henv.attempts (by rw [henv.owner]))
    (fun _ _ => trans_shape) (fun s t henv => ⟨fun a ha _ => henv.attempts ▸ ha, fun w hw => ?_⟩)
    (fun _ _ => trans_keepsSettled) hr.requestsEnded hr.shape
  · obtain ⟨w', hw', hsame⟩ := hst.2 w hw
    obtain ⟨w'', hw'', hsame'⟩ := htu.2 w' hw'
    exact ⟨w'', hw'', hsame.trans hsame'⟩
  · exact ⟨w, henv.works ▸ hw, .refl w⟩

/-! ## What is recorded -/

/-- A completed rerun that the server recorded as a failed normalization. -/
structure CompletedAsFailed (work : Work) (previous : Attempt) (r : Settlement) : Prop where
  rerun : work.kind = .rerun
  completed : r.outcome = .completed
  failed : previous.outcome = some .failed
  code : previous.failureCode = some "NORMALIZATION_FAILED"

/-- The round of the identity is settled with `r`, as far as the rerun rule let it. -/
structure SettledAs (s : Db) (identity : FenceIdentity) (r : Settlement) (work : Work)
    (previous : Attempt) : Prop where
  workMem : work ∈ s.works
  workId : work.workId = identity.workId
  mem : previous ∈ s.attempts
  ofWork : previous.workId = identity.workId
  generation : previous.generation = some identity.generation
  token : previous.token = some identity.token
  settled : previous.state = .settled
  proof : previous.proof = some r.proof
  outcome : (previous.outcome = some r.outcome ∧ previous.failureCode = r.failureCode) ∨
    CompletedAsFailed work previous r

/-- What the endpoint compares. -/
theorem replays_iff {work : Work} {previous : Attempt} {r : Settlement} {newId : Uuid} :
    (Action.settle r newId).replays work previous = true ↔
      previous.proof = some r.proof ∧
        ((previous.outcome = some r.outcome ∧ previous.failureCode = r.failureCode) ∨
          (CompletedAsFailed work previous r ∧ r.failureCode = none)) := by
  simp only [Action.replays, Bool.and_eq_true, Bool.or_eq_true, beq_iff_eq, Option.isNone_iff_eq_none]
  constructor
  · rintro ⟨⟨houtcome, hproof⟩, hcode⟩
    refine ⟨hproof, ?_⟩
    rcases houtcome with houtcome | ⟨⟨⟨⟨hk, hc⟩, hn⟩, hf⟩, hnf⟩
    · rcases hcode with hcode | ⟨⟨⟨⟨hk, hc⟩, hn⟩, hf⟩, hnf⟩
      · exact Or.inl ⟨houtcome, hcode⟩
      · exact Or.inr ⟨⟨hk, hc, hf, hnf⟩, hn⟩
    · exact Or.inr ⟨⟨hk, hc, hf, hnf⟩, hn⟩
  · rintro ⟨hproof, ⟨houtcome, hcode⟩ | ⟨⟨hk, hc, hf, hnf⟩, hn⟩⟩
    · exact ⟨⟨Or.inl houtcome, hproof⟩, Or.inl hcode⟩
    · exact ⟨⟨Or.inr ⟨⟨⟨⟨hk, hc⟩, hn⟩, hf⟩, hnf⟩, hproof⟩, Or.inr ⟨⟨⟨⟨hk, hc⟩, hn⟩, hf⟩, hnf⟩⟩

/-- The rerun rule keeps the proof and rewrites at most a completion. -/
theorem effective_recorded (r : Settlement) (work : Work) :
    (r.effective s work).proof = r.proof ∧
      (r.effective s work = r ∨
        (work.kind = .rerun ∧ r.outcome = .completed ∧ (r.effective s work).outcome = .failed ∧
          (r.effective s work).failureCode = some "NORMALIZATION_FAILED")) := by
  unfold Settlement.effective
  split
  · rename_i hr
    simp only [Settlement.rerunFailed, Bool.and_eq_true, beq_iff_eq] at hr
    exact ⟨rfl, Or.inr ⟨hr.1.1, hr.1.2, rfl, rfl⟩⟩
  · exact ⟨rfl, Or.inl rfl⟩

/-- The held round as a settlement leaves it. -/
def Attempt.settledWith (a : Attempt) (utc : Instant) (r : Settlement) : Attempt :=
  { a with state := .settled, outcome := some r.outcome, settledAt := some utc,
           proof := some r.proof, failureCode := r.failureCode }

theorem settle_leaves_round {utc : Instant} {newId : Uuid} {identity : FenceIdentity}
    {validated : Option Uuid} {r : Settlement}
    (h : settle cfg utc newId identity validated r s = .ok t) :
    ∃ work attempt, Fenced utc identity s work attempt ∧
      attempt.settledWith utc (r.effective s work) ∈ t.attempts := by
  obtain ⟨work, attempt, hset, hout⟩ := settle_ok h
  refine ⟨work, attempt, hset.fenced, ?_⟩
  have hrow : attempt.settledWith utc (r.effective s work) ∈
      (s.settleRound attempt.attemptId utc (r.effective s work)).attempts :=
    (Table.mem_modify_row (by intro _; rfl) hset.fenced.mem).mpr (Or.inr rfl)
  rcases hout with ⟨_, hretry⟩ | ⟨_, rfl⟩
  · unfold settleRetry at hretry
    obtain ⟨_, _, hretry⟩ := ok_bind hretry
    obtain ⟨s', ha, hretry⟩ := ok_bind hretry
    obtain ⟨a, attempts, _, _, hins, rfl⟩ := addAttempt_ok ha
    cases ok_pure hretry
    exact (Table.mem_insert? hins).mpr (Or.inl hrow)
  · exact hrow

theorem mutate_steps {utc : Instant} {datasets : List DatasetKey} {identity : FenceIdentity}
    {action : Action} {state : WorkState}
    (h : mutate cfg utc datasets identity action s = .ok (t, state)) : Steps cfg s t := by
  have happly : apply cfg (.mutate utc datasets identity action) s = t := by
    simp only [apply, mutateDb, h]
    rfl
  exact happly ▸ (StepsIf.refl s).tail trivial

/-- A settlement that succeeds is recorded, also when it was a replay itself. -/
theorem mutate_settledAs {utc : Instant} {datasets : List DatasetKey} {identity : FenceIdentity}
    {r : Settlement} {newId : Uuid} {state : WorkState} (hr : Reachable cfg s)
    (h : mutate cfg utc datasets identity (.settle r newId) s = .ok (t, state)) :
    ∃ work previous, SettledAs t identity r work previous := by
  have hkeeps := (mutate_steps h).keepsSettled hr
  unfold mutate at h
  obtain ⟨_, _, h⟩ := ok_bind h
  split at h
  · rename_i previous hprev
    obtain ⟨work, hw, h⟩ := ok_bind h
    obtain ⟨_, hrep, h⟩ := ok_bind h
    cases ok_pure h
    obtain ⟨_, hmem, hof, hgen, htok, hset⟩ := previous_spec hprev
    obtain ⟨hwmem, hid⟩ := Table.find?_eq_some.mp (need_ok.mp (plain_ok.mp hw))
    obtain ⟨hproof, hout⟩ := replays_iff.mp (ensure_ok.mp (plain_ok.mp hrep))
    refine ⟨work, previous, hwmem, hid, hmem, hof, hgen, htok, hset, hproof, ?_⟩
    exact hout.imp_right And.left
  · obtain ⟨⟨_, _⟩, _, h⟩ := ok_bind h
    obtain ⟨_, _, h⟩ := ok_bind h
    obtain ⟨t', hrun, h⟩ := ok_bind h
    obtain ⟨_, _, h⟩ := ok_bind h
    cases ok_pure h
    obtain ⟨work, attempt, hf, hrow⟩ := settle_leaves_round hrun
    obtain ⟨work', hw', hsame⟩ := hkeeps.2 work hf.workMem
    obtain ⟨hgen, htok⟩ := hr.issued.held attempt hf.mem hf.owned
    obtain ⟨hproof, heff⟩ := effective_recorded (s := s) r work
    refine ⟨work', _, hw', hsame.workId.trans hf.workId, hrow, hf.ofWork.trans hf.workId, ?_, ?_,
      rfl, congrArg some hproof, ?_⟩
    · exact hgen.trans (congrArg some hf.generation)
    · exact htok.trans hf.token
    · rcases heff with heff | ⟨hk, hc, hfailed, hcode⟩
      · exact Or.inl ⟨congrArg (fun x : Settlement => some x.outcome) heff, congrArg Settlement.failureCode heff⟩
      · exact Or.inr ⟨hsame.kind.trans hk, hc, congrArg some hfailed, hcode⟩

/-- The record stays. -/
theorem SettledAs.steps {identity : FenceIdentity} {r : Settlement} {work : Work}
    {previous : Attempt} (h : SettledAs s identity r work previous) (hrun : Steps cfg s t)
    (hr : Reachable cfg s) : ∃ work', SettledAs t identity r work' previous := by
  obtain ⟨hrounds, hworks⟩ := hrun.keepsSettled hr
  obtain ⟨work', hw', hsame⟩ := hworks work h.workMem
  refine ⟨work', hw', hsame.workId.trans h.workId, hrounds previous h.mem h.settled, h.ofWork,
    h.generation, h.token, h.settled, h.proof, ?_⟩
  rcases h.outcome with hout | hfailed
  · exact Or.inl hout
  · exact Or.inr ⟨hsame.kind.trans hfailed.rerun, hfailed.completed, hfailed.failed, hfailed.code⟩

/-! ## The answer -/

/-- The endpoint finds the round. -/
theorem SettledAs.previous {identity : FenceIdentity} {r : Settlement} {work : Work}
    {previous : Attempt} {datasets : List DatasetKey} {action : Action}
    (h : SettledAs s identity r work previous) (hi : Issued s)
    (hcall : action = .close ∨ ∃ r' newId, action = .settle r' newId)
    (hscope : datasets.contains work.datasetKey = true) :
    action.previous datasets identity s = some previous := by
  have hfind : s.works.find? previous.workId = some work :=
    Table.find?_eq_some.mpr ⟨h.workMem, by rw [h.workId, h.ofWork]⟩
  have hmatch : (previous.workId == identity.workId && previous.generation == some identity.generation
      && previous.token == some identity.token && previous.state == .settled &&
      (s.works.find? previous.workId).any fun w => datasets.contains w.datasetKey) = true := by
    have hin : work.datasetKey ∈ datasets := by simpa using hscope
    rw [hfind]
    simp [h.ofWork, h.generation, h.token, h.settled, hin]
  have hsome : ∃ a, action.previous datasets identity s = some a := by
    rcases hcall with rfl | ⟨r', newId, rfl⟩ <;>
      exact Option.isSome_iff_exists.mp (List.find?_isSome.mpr ⟨previous, h.mem, hmatch⟩)
  obtain ⟨a, ha⟩ := hsome
  obtain ⟨_, hmem, _, hgen, _, _⟩ := previous_spec ha
  rw [ha, Table.eq_of_key hmem h.mem (hi.once a hmem previous h.mem _ hgen h.generation)]

/-- It answers from the record, or refuses. -/
theorem SettledAs.mutate {utc : Instant} {identity : FenceIdentity} {r : Settlement} {work : Work}
    {previous : Attempt} {datasets : List DatasetKey} {action : Action}
    (h : SettledAs s identity r work previous) (hi : Issued s)
    (hcall : action = .close ∨ ∃ r' newId, action = .settle r' newId)
    (hsource : sourceScope cfg datasets = .ok ())
    (hscope : datasets.contains work.datasetKey = true) :
    ProviderWork.mutate cfg utc datasets identity action s =
      if action.replays work previous then .ok (s, work.state)
      else .error ⟨.work "settlement replay differs from durable round proof"
        "PROVIDER_WORK_REPLAY_MISMATCH", none⟩ := by
  have hfind : s.works.find? identity.workId = some work :=
    Table.find?_eq_some.mpr ⟨h.workMem, h.workId⟩
  unfold ProviderWork.mutate
  rw [hsource, h.previous hi hcall hscope, hfind]
  cases hrep : action.replays work previous with
  | true =>
    change plain (ensure (action.replays work previous) _) >>= _ = _
    rw [hrep]
    rfl
  | false =>
    change plain (ensure (action.replays work previous) _) >>= _ = _
    rw [hrep]
    rfl

/-- What `r` settled and every later call with its identity is answered from. -/
structure Replayable (cfg : Config) (s : Db) (identity : FenceIdentity) (r : Settlement)
    (work : Work) (previous : Attempt) (datasets : List DatasetKey) : Prop where
  close : ∀ utc, mutate cfg utc datasets identity .close s = .ok (s, work.state)
  same : (CompletedAsFailed work previous r → r.failureCode = none) → ∀ utc newId,
    mutate cfg utc datasets identity (.settle r newId) s = .ok (s, work.state)
  otherProof : ∀ r' : Settlement, r'.proof ≠ r.proof → ∀ utc newId,
    Refused (mutate cfg utc datasets identity (.settle r' newId) s)
  otherOutcome : ∀ r' : Settlement,
    ¬ (previous.outcome = some r'.outcome ∧ previous.failureCode = r'.failureCode) →
    ¬ (CompletedAsFailed work previous r' ∧ r'.failureCode = none) → ∀ utc newId,
    Refused (mutate cfg utc datasets identity (.settle r' newId) s)

/-- The settlement of a first round as a retry. -/
def retrySettlement : Settlement := ⟨.retry, Proof.empty, some ⟨11 * minute, true⟩, none⟩

/-- A rerun of a retained payload whose normalization failed. -/
def failedRerun : Db :=
  runAll (apply (utcConfig .twelveData))
    [.rerunFromRaw 0 (1, 2) ⟨50, 40, cleanRun .twelveData "us_equity_eod", "sha"⟩,
      .setRegistry { backfillRegistry with
        runs := fun _ => { cleanRun .twelveData "us_equity_eod" with status := .failed } },
      .claim 5 5 7 (hostClaim false), .mutate 6 ["us_equity_eod"] ⟨1, 1, 7⟩ .close]
    (Db.init backfillRegistry)

/-- Completed, with a failure code. -/
def completedWithCode : Settlement := ⟨.completed, Proof.empty, none, some "PARTIAL_SOURCE"⟩

end FinDB.ProviderWork
