import FinDB.Plans.Evidence
import FinDB.Lib.Machine

/-! # Where runs, members and canonical rows belong

Parts, members and plans are created together and never move; a run keeps its part and
its payload; a canonical row is of a run that succeeded. -/
namespace FinDB.Plans
open FinDB.Lib

variable {cfg : Config} {s t : State} {ws : List Write} {op : Op}

/-! ## Which operation writes what -/

theorem Completes.mem {run : IngestionRun} {rows : List (PayloadRow × Verdict)} {p : Progress}
    (h : Completes cfg s run rows p ws) {w : Write} (hw : w ∈ ws) :
    (∃ i, w = .addIdentifier i) ∨ (∃ c, w = .putCanonical c ∧ Writes cfg s run rows c) ∨
      (∃ status counts, w = .setRun run.runId status counts) ∨
      ∃ key ∈ p.state.deliveryEvidence run, w = .addEvidence run.runId key := by
  obtain ⟨status, counts, -, rfl⟩ := h.writes
  rw [List.mem_append, List.mem_append, List.mem_singleton] at hw
  rcases hw with (hw | rfl) | hw
  · rcases h.normalizing.writes w hw with hi | hc
    · exact Or.inl hi
    · exact Or.inr (Or.inl hc)
  · exact Or.inr (Or.inr (Or.inl ⟨status, some counts, rfl⟩))
  · obtain ⟨key, hkey, rfl⟩ := List.mem_map.mp hw
    exact Or.inr (Or.inr (Or.inr ⟨key, hkey, rfl⟩))

/-- What one write of an operation is. -/
inductive Wrote (cfg : Config) (s : State) : Op → Write → Prop
  | created {plan partId frozen ws w} (h : Creates s plan ws) (hw : w ∈ ws) :
      Wrote cfg s (.createPlan plan partId frozen) w
  | delivered {d part} (h : validateIngestPart s d = .ok part)
      (hfree : s.runs.find? d.run.runId = none) : Wrote cfg s (.deliver d) (.addRun (newRun d part))
  | received {d receipt work} (hrun : receipt.runId = d.run.runId)
      (hfree : s.runs.find? d.run.runId = none) (hwork : s.works.find? receipt.workId = some work)
      (h : work.acceptsMember receipt.memberKey receipt.payloadSha256
        (some (d.run.payload.rows.map (·.memberKey))) = .ok ()) :
      Wrote cfg s (.deliver d) (.addReceipt receipt)
  | copied {runId newRunId bounded now original copy} (h : s.runs.find? runId = some original)
      (hfree : s.runs.find? newRunId = none) (hid : copy.runId = newRunId)
      (hstatus : copy.status = .queued) (hpart : copy.deliveryPartId = original.deliveryPartId)
      (hpayload : copy.payload = original.payload) :
      Wrote cfg s (.rerun runId newRunId bounded now) (.addRun copy)
  | started {runId status} : Wrote cfg s (.start runId) (.setRun runId status none)
  | retried {runId exhausted status} :
      Wrote cfg s (.scheduleRetry runId exhausted) (.setRun runId status none)
  | failed {runId status} : Wrote cfg s (.markPermanentFailure runId) (.setRun runId status none)
  | completed {runId ncfg now verdict run p ws w} (hrun : s.runs.find? runId = some run)
      (h : Completes cfg s run (judged cfg run verdict) p ws) (hw : w ∈ ws) :
      Wrote cfg s (.complete runId ncfg now verdict) w
  | outcome {body now m entry} (hm : s.members.find? (body.planId, body.memberKey) = some m)
      (h : m.outcome ≠ some .noData) :
      Wrote cfg s (.recordOutcome body now) (.setOutcome body.planId body.memberKey entry)
  | repaired {planId changes r} (h : r.planId = planId) :
      Wrote cfg s (.applyRepair planId changes) (.addRepair r)
  | enqueued {work} : Wrote cfg s (.enqueueWork work) (.addWork work)
  | frozen {workId manifest work} (hwork : s.works.find? workId = some work)
      (h : work.manifest = none) :
      Wrote cfg s (.freezeManifest workId manifest) (.setManifest workId manifest)

theorem wrote (h : op.writes cfg s = .ok ws) {w : Write} (hw : w ∈ ws) : Wrote cfg s op w := by
  cases op with
  | createPlan plan partId frozen =>
    rcases createPlan_ok h with rfl | hc
    · cases hw
    · exact .created hc hw
  | deliver d =>
    obtain ⟨part, receipts, hpart, hfree, hreceipts, rfl⟩ := deliver_ok h
    rcases List.mem_cons.mp hw with rfl | hw
    · exact .delivered hpart hfree
    · rcases newReceipt_ok hreceipts with rfl | ⟨receipt, work, rfl, hrun, hwork, haccepts⟩
      · cases hw
      · cases List.mem_singleton.mp hw
        exact .received hrun hfree hwork haccepts
  | replay runId =>
    obtain ⟨run, -, h⟩ := ok_bind h
    cases ok_pure h
    cases hw
  | rerun runId newRunId bounded now =>
    obtain ⟨original, copy, ho, hfree, rfl, hid, hstatus, hpart, hpayload⟩ := rerun_ok h
    cases List.mem_singleton.mp hw
    exact .copied ho hfree hid hstatus hpart hpayload
  | start runId =>
    rcases start_ok h with rfl | rfl
    · cases hw
    · cases List.mem_singleton.mp hw
      exact .started
  | scheduleRetry runId exhausted =>
    cases scheduleRetry_ok h
    cases List.mem_singleton.mp hw
    exact .retried
  | markPermanentFailure runId =>
    cases markPermanentFailure_ok h
    cases List.mem_singleton.mp hw
    exact .failed
  | complete runId ncfg now verdict =>
    obtain ⟨run, hrun, hc⟩ := complete_ok h
    exact .completed hrun hc hw
  | recordOutcome body now =>
    rcases recordOutcome_ok h with rfl | ⟨m, entry, hm, hne, rfl⟩
    · cases hw
    · cases List.mem_singleton.mp hw
      exact .outcome hm hne
  | applyRepair planId changes =>
    cases applyRepair_ok h
    obtain ⟨c, -, rfl⟩ := List.mem_map.mp hw
    exact .repaired rfl
  | enqueueWork work =>
    cases h
    cases List.mem_singleton.mp hw
    exact .enqueued
  | freezeManifest workId manifest =>
    rcases freezeManifest_ok h with rfl | ⟨work, hwork, hnone, rfl⟩
    · cases hw
    · cases List.mem_singleton.mp hw
      exact .frozen hwork hnone

/-- Only a normalization writes canonical rows. -/
theorem putCanonical_of_wrote {c : CanonicalRow} (h : Wrote cfg s op (.putCanonical c)) :
    ∃ runId ncfg now verdict run, op = .complete runId ncfg now verdict ∧
      s.runs.find? runId = some run ∧ Writes cfg s run (judged cfg run verdict) c := by
  cases h with
  | created hc hw =>
    rcases hc.writes _ hw with h | ⟨_, h, -⟩ | ⟨_, h, -⟩ <;> cases h
  | completed hrun h hw =>
    rcases h.mem hw with ⟨_, h⟩ | ⟨c', h, hc⟩ | ⟨_, _, h⟩ | ⟨_, _, h⟩
    · cases h
    · cases h
      exact ⟨_, _, _, _, _, rfl, hrun, hc⟩
    · cases h
    · cases h

/-- A member is added with its plan and its part. -/
theorem addMember_of_wrote {m : Member} (h : Wrote cfg s op (.addMember m)) :
    s.plans.find? m.planId = none ∧ s.parts.find? m.partId = none := by
  cases h with
  | created hc hw =>
    rcases hc.writes _ hw with h | ⟨_, h, -⟩ | ⟨m', h, hplan, hpart⟩
    · cases h
    · cases h
    · cases h
      exact ⟨by rw [hplan]; exact hc.fresh, hpart⟩
  | completed hrun h hw =>
    rcases h.mem hw with ⟨_, h⟩ | ⟨_, h, -⟩ | ⟨_, _, h⟩ | ⟨_, _, h⟩ <;> cases h

/-- Outcomes are set where no-data is not yet recorded. -/
theorem setOutcome_of_wrote {planId : Uuid} {key : MemberKey} {entry : OutcomeEntry}
    (h : Wrote cfg s op (.setOutcome planId key entry)) :
    ∃ m, s.members.find? (planId, key) = some m ∧ m.outcome ≠ some .noData := by
  cases h with
  | created hc hw =>
    rcases hc.writes _ hw with h | ⟨_, h, -⟩ | ⟨_, h, -⟩ <;> cases h
  | completed hrun h hw =>
    rcases h.mem hw with ⟨_, h⟩ | ⟨_, h, -⟩ | ⟨_, _, h⟩ | ⟨_, _, h⟩ <;> cases h
  | outcome hm h => exact ⟨_, hm, h⟩

/-- Manifests are set once. -/
theorem setManifest_of_wrote {workId : Uuid} {manifest : ProviderWork.Manifest}
    (h : Wrote cfg s op (.setManifest workId manifest)) :
    ∃ work, s.works.find? workId = some work ∧ work.manifest = none := by
  cases h with
  | created hc hw =>
    rcases hc.writes _ hw with h | ⟨_, h, -⟩ | ⟨_, h, -⟩ <;> cases h
  | completed hrun h hw =>
    rcases h.mem hw with ⟨_, h⟩ | ⟨_, h, -⟩ | ⟨_, _, h⟩ | ⟨_, _, h⟩ <;> cases h
  | frozen hwork h => exact ⟨_, hwork, h⟩

/-- Evidence is of the run that completes. -/
theorem addEvidence_of_wrote {r : Uuid} {key : MemberKey} (h : Wrote cfg s op (.addEvidence r key)) :
    ∃ ncfg now verdict, op = .complete r ncfg now verdict := by
  cases h with
  | created hc hw =>
    rcases hc.writes _ hw with h | ⟨_, h, -⟩ | ⟨_, h, -⟩ <;> cases h
  | completed hrun h hw =>
    rcases h.mem hw with ⟨_, h⟩ | ⟨_, h, -⟩ | ⟨_, _, h⟩ | ⟨_, _, h⟩
    · cases h
    · cases h
    · cases h
    · cases h
      rw [(Table.find?_eq_some.mp hrun).2]
      exact ⟨_, _, _, rfl⟩

/-! ## The invariant -/

/-- The part of a run is there, and has the members of its rows. -/
def PlacedRun (s : State) (run : IngestionRun) : Prop :=
  ∀ p, run.deliveryPartId = some p →
    (s.parts.find? p).isSome ∧ ∀ row ∈ run.payload.rows, row.memberKey ∈ s.expected p

structure Placed (s : State) : Prop where
  runs : ∀ run ∈ s.runs, PlacedRun s run
  members : ∀ m ∈ s.members, (s.plans.find? m.planId).isSome
  canonical : ∀ c ∈ s.canonical, ∀ r, c.runId = some r →
    ∃ run, s.runs.find? r = some run ∧ succeeded run.status
  evidence : ∀ e ∈ s.evidence, ∃ run, s.runs.find? e.1 = some run ∧ succeeded run.status

theorem Placed.init : Placed State.init where
  runs _ h := by cases h
  members _ h := by cases h
  canonical _ h := by cases h
  evidence _ h := by cases h

theorem PlacedRun.of_frozen {run run' : IngestionRun} (h : PlacedRun s run)
    (hf : run'.frozen = run.frozen) : PlacedRun s run' := by
  intro p hp
  rw [IngestionRun.part_of_frozen hf] at hp
  rw [IngestionRun.payload_of_frozen hf]
  exact h p hp

/-- Where a run is placed, as far as the tables still say so. -/
theorem PlacedRun.later {run : IngestionRun} (h : PlacedRun s run)
    (hp : ∀ p, (s.parts.find? p).isSome → (t.parts.find? p).isSome)
    (hm : ∀ p key, key ∈ s.expected p → key ∈ t.expected p) : PlacedRun t run :=
  fun p hpart => ⟨hp p (h p hpart).1, fun row hrow => hm p _ ((h p hpart).2 row hrow)⟩

/-- A run that is added is placed. -/
theorem addRun_of_wrote (hs : Placed s) {run : IngestionRun} (h : Wrote cfg s op (.addRun run)) :
    PlacedRun s run ∧ run.status = .queued ∧ s.runs.find? run.runId = none := by
  cases h with
  | created hc hw =>
    rcases hc.writes _ hw with h | ⟨_, h, -⟩ | ⟨_, h, -⟩ <;> cases h
  | delivered hpart hfree => exact ⟨fun p hp => validateIngestPart_ok hpart p hp, rfl, hfree⟩
  | copied ho hfree hid hstatus hpart hpayload =>
    refine ⟨fun p hp => ?_, hstatus, by rw [hid]; exact hfree⟩
    rw [hpayload]
    exact hs.runs _ (Table.find?_eq_some.mp ho).1 p (hpart ▸ hp)
  | completed hrun h hw =>
    rcases h.mem hw with ⟨_, h⟩ | ⟨_, h, -⟩ | ⟨_, _, h⟩ | ⟨_, _, h⟩ <;> cases h

/-- A run in a terminal status keeps it. -/
def KeepsTerminal (s t : State) : Prop :=
  ∀ run ∈ s.runs, run.status.terminal = true →
    ∀ run' ∈ t.runs, run'.runId = run.runId → run'.status = run.status

theorem terminal_of_succeeded {status : RunStatus} (h : succeeded status = true) :
    status.terminal = true := by
  cases status <;> first | rfl | cases h

theorem expected_kept {p : Uuid} {key : MemberKey} (ws : List Write) (h : key ∈ s.expected p) :
    key ∈ (s.writeAll ws).expected p := by
  obtain ⟨m, hm, hpart, hkey⟩ := State.mem_expected.mp h
  obtain ⟨m', hm', hf⟩ := members_kept ws hm
  exact State.mem_expected.mpr ⟨m', hm', (Member.partId_of_frozen hf).trans hpart,
    (Member.memberKey_of_frozen hf).trans hkey⟩

theorem part_kept {p : Uuid} (ws : List Write) (h : (s.parts.find? p).isSome) :
    ((s.writeAll ws).parts.find? p).isSome := by
  obtain ⟨part, hpart⟩ := Option.isSome_iff_exists.mp h
  obtain ⟨hmem, hid⟩ := Table.find?_eq_some.mp hpart
  exact Option.isSome_iff_exists.mpr ⟨part, Table.find?_eq_some.mpr ⟨parts_kept ws hmem, hid⟩⟩

theorem plan_kept {id : Uuid} (ws : List Write) (h : (s.plans.find? id).isSome) :
    ((s.writeAll ws).plans.find? id).isSome := by
  obtain ⟨plan, hplan⟩ := Option.isSome_iff_exists.mp h
  obtain ⟨hmem, hid⟩ := Table.find?_eq_some.mp hplan
  exact Option.isSome_iff_exists.mpr ⟨plan, Table.find?_eq_some.mpr ⟨plans_kept ws hmem, hid⟩⟩

theorem PlacedRun.writeAll {run : IngestionRun} (h : PlacedRun s run) (ws : List Write) :
    PlacedRun (s.writeAll ws) run :=
  h.later (fun _ => part_kept ws) fun _ _ => expected_kept ws

/-- A run that succeeded is still there, and succeeded. -/
theorem succeeded_kept (hk : KeepsTerminal s (s.writeAll ws)) {r : Uuid} {run : IngestionRun}
    (h : s.runs.find? r = some run) (hok : succeeded run.status = true) :
    ∃ run', (s.writeAll ws).runs.find? r = some run' ∧ run'.frozen = run.frozen ∧
      run'.status = run.status := by
  obtain ⟨run', hfind, hf⟩ := runs_kept ws h
  obtain ⟨hrun, -⟩ := Table.find?_eq_some.mp h
  refine ⟨run', hfind, hf, ?_⟩
  exact hk run hrun (terminal_of_succeeded hok) run' (Table.find?_eq_some.mp hfind).1
    (IngestionRun.runId_of_frozen hf)

/-- The run a normalization ends has succeeded. -/
theorem Completes.succeeds {run : IngestionRun} {rows : List (PayloadRow × Verdict)} {p : Progress}
    (h : Completes cfg s run rows p ws) (hrun : s.runs.find? run.runId = some run) :
    ∃ run', (s.writeAll ws).runs.find? run.runId = some run' ∧ run'.frozen = run.frozen ∧
      succeeded run'.status = true := by
  obtain ⟨status, counts, hstatus, rfl⟩ := h.writes
  have hquiet (u : State) (ws : List Write)
      (hws : ∀ w ∈ ws, (∃ i, w = .addIdentifier i) ∨ (∃ c, w = .putCanonical c) ∨
        ∃ r key, w = .addEvidence r key) : (u.writeAll ws).runs = u.runs := by
    refine writeAll_inv (P := fun v => v.runs = u.runs) (fun v w hw hv => ?_) rfl
    rcases hws w hw with ⟨_, rfl⟩ | ⟨_, rfl⟩ | ⟨_, _, rfl⟩ <;> exact hv
  rw [writeAll_append, writeAll_append, hquiet]
  · refine ⟨run.set status (some counts), ?_, IngestionRun.set_frozen .., ?_⟩
    · change ((s.writeAll p.writes).write (.setRun run.runId status (some counts))).runs.find? _ = _
      rw [find?_setRun, hquiet, hrun]
      · simp
      · intro w hw
        rcases h.normalizing.writes w hw with hi | ⟨c, hc, -⟩
        · exact Or.inl hi
        · exact Or.inr (Or.inl ⟨c, hc⟩)
    · rcases hstatus with rfl | rfl <;> rfl
  · intro w hw
    obtain ⟨key, -, rfl⟩ := List.mem_map.mp hw
    exact Or.inr (Or.inr ⟨_, _, rfl⟩)

theorem Placed.writeAll (hs : Placed s) (h : op.writes cfg s = .ok ws)
    (hk : KeepsTerminal s (s.writeAll ws)) : Placed (s.writeAll ws) where
  runs run hrun := by
    rcases runs_from ws hrun with ⟨run₀, hrun₀, hf⟩ | ⟨run₀, hadd, hf⟩
    · exact ((hs.runs run₀ hrun₀).of_frozen hf).writeAll ws
    · exact ((addRun_of_wrote hs (wrote h hadd)).1.of_frozen hf).writeAll ws
  members m hm := by
    rcases members_from ws hm with ⟨m₀, hm₀, hf⟩ | ⟨m₀, hadd, hf⟩
    · rw [Member.planId_of_frozen hf]
      exact plan_kept ws (hs.members m₀ hm₀)
    · rw [Member.planId_of_frozen hf]
      obtain ⟨plan, hplan, hid⟩ : ∃ plan, .addPlan plan ∈ ws ∧ m₀.planId = plan.planId := by
        cases wrote h hadd with
        | created _ _ =>
          rcases createPlan_ok h with rfl | hc
          · cases hadd
          · rcases hc.writes _ hadd with h | ⟨_, h, -⟩ | ⟨_, h, hid, -⟩ <;> cases h
            exact ⟨_, hc.mem, hid⟩
        | completed _ hc hw => rcases hc.mem hw with ⟨_, h⟩ | ⟨_, h, -⟩ | ⟨_, _, h⟩ | ⟨_, _, h⟩ <;> cases h
      obtain ⟨plan', hmem, hid'⟩ := plans_added (s := s) hplan
      exact Option.isSome_iff_exists.mpr
        ⟨plan', Table.find?_eq_some.mpr ⟨hmem, hid'.trans hid.symm⟩⟩
  canonical c hc r hr := by
    rcases canonical_from ws hc with hc | hput
    · obtain ⟨run, hrun, hok⟩ := hs.canonical c hc r hr
      obtain ⟨run', hfind, -, hstatus⟩ := succeeded_kept hk hrun hok
      exact ⟨run', hfind, by rw [hstatus]; exact hok⟩
    · obtain ⟨runId, ncfg, now, verdict, run, rfl, hrun, hwrites⟩ :=
        putCanonical_of_wrote (wrote h hput)
      obtain ⟨run₀, hrun₀, hcompletes⟩ := complete_ok h
      cases hrun₀.symm.trans hrun
      have hid := (Table.find?_eq_some.mp hrun).2
      obtain ⟨run', hfind, -, hok⟩ := hcompletes.succeeds (by rw [hid]; exact hrun)
      cases hr.symm.trans hwrites.1
      exact ⟨run', hfind, hok⟩
  evidence e he := by
    rcases (mem_evidence ws).mp he with he | hadd
    · obtain ⟨run, hrun, hok⟩ := hs.evidence e he
      obtain ⟨run', hfind, -, hstatus⟩ := succeeded_kept hk hrun hok
      exact ⟨run', hfind, by rw [hstatus]; exact hok⟩
    · obtain ⟨ncfg, now, verdict, rfl⟩ := addEvidence_of_wrote (wrote h hadd)
      obtain ⟨run, hrun, hcompletes⟩ := complete_ok h
      have hid := (Table.find?_eq_some.mp hrun).2
      obtain ⟨run', hfind, -, hok⟩ := hcompletes.succeeds (by rw [hid]; exact hrun)
      exact ⟨run', hid ▸ hfind, hok⟩

theorem Placed.step (hs : Placed s) (hk : KeepsTerminal s (step cfg op s)) :
    Placed (step cfg op s) := by
  rcases step_cases cfg op s with ⟨ws, h, ht⟩ | ht
  · rw [ht] at hk ⊢
    exact hs.writeAll h hk
  · rw [ht]
    exact hs

/-- In every state the services reach. -/
theorem Placed.steps
    (h : StepsIf (Plans.step cfg) (fun u op => KeepsTerminal u (Plans.step cfg op u)) .init s) :
    Placed s := h.inv (I := Placed) (fun _ _ hu hk => hu.step hk) .init

end FinDB.Plans
