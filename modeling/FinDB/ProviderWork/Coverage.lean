import FinDB.ProviderWork.Terminal

/-! # Completed means proven coverage

An EOD v2 work is completed or partial only through one evidence document, and
the validator gives every member of it exactly one verdict, each backed by a
durable fact. The facts are only ever added, so they still stand in every later
state in which the work is ended. -/
namespace FinDB.ProviderWork
open FinDB.Lib Relation

variable {cfg : Config} {mode : Mode} {s t : Db}

/-! ## The verdict on one member -/

/-- What the durable rows prove of a member, given what the document claims of it. -/
inductive Accounts (cfg : Config) (s : Db) (work : Work) (m : EODMemberResult) : Coverage → Prop where
  | written (mem : m.memberKey ∈ work.written s) (claimed : m.outcome = .data) :
      Accounts cfg s work m .written
  | noData (unwritten : m.memberKey ∉ work.written s) (claimed : m.outcome = .noData)
      (daily : work.kind = .daily) (recorded : m.memberKey ∈ work.recordedNoData s) :
      Accounts cfg s work m .noData
  | mappingGap (unwritten : m.memberKey ∉ work.written s) (claimed : m.outcome = .mappingGap)
      (frozen : work.frozenGap m.memberKey = true) : Accounts cfg s work m .gap
  | rejected (unwritten : m.memberKey ∉ work.written s) (claimed : m.outcome = .invalid)
      (rejected : m.memberKey ∈ work.rejected s) : Accounts cfg s work m .gap
  | raw (unwritten : m.memberKey ∉ work.written s)
      (claimed : m.outcome = .invalid ∨ m.outcome = .missing) (raw : m.rawGap cfg work = true) :
      Accounts cfg s work m .gap

theorem Accounts.unique {work : Work} {m : EODMemberResult} {c c' : Coverage}
    (h : Accounts cfg s work m c) (h' : Accounts cfg s work m c') : c = c' := by
  cases h <;> cases h' <;> simp_all

/-- The verdict reads the facts through these queries alone. -/
theorem Accounts.congr {w w' : Work} {m : EODMemberResult} {c : Coverage}
    (h : Accounts cfg s w m c) (hwritten : w'.written t = w.written s)
    (hnoData : w'.recordedNoData t = w.recordedNoData s)
    (hrejected : w'.rejected t = w.rejected s) (hkind : w'.kind = w.kind)
    (hgap : w'.frozenGap m.memberKey = w.frozenGap m.memberKey)
    (hraw : m.rawGap cfg w' = m.rawGap cfg w) : Accounts cfg t w' m c := by
  cases h with
  | written mem claimed => exact .written (hwritten ▸ mem) claimed
  | noData unwritten claimed daily recorded =>
    exact .noData (hwritten ▸ unwritten) claimed (hkind.trans daily) (hnoData ▸ recorded)
  | mappingGap unwritten claimed frozen =>
    exact .mappingGap (hwritten ▸ unwritten) claimed (hgap.trans frozen)
  | rejected unwritten claimed rejected =>
    exact .rejected (hwritten ▸ unwritten) claimed (hrejected ▸ rejected)
  | raw unwritten claimed raw => exact .raw (hwritten ▸ unwritten) claimed (hraw.trans raw)

/-- It reads neither the state of the work nor when it was completed. -/
theorem accounts_restate {work : Work} {m : EODMemberResult} {c : Coverage} (st : WorkState)
    (completedAt : Option Instant) :
    Accounts cfg s { work with state := st, completedAt } m c ↔ Accounts cfg s work m c :=
  ⟨fun h => h.congr rfl rfl rfl rfl rfl rfl, fun h => h.congr rfl rfl rfl rfl rfl rfl⟩

/-- A work that is left alone keeps its verdicts while the facts stay. -/
theorem accounts_leftAlone {w : Work} {m : EODMemberResult} {c : Coverage} (hf : SameFacts s t)
    (hl : LeftAlone s t w.workId) : Accounts cfg t w m c ↔ Accounts cfg s w m c := by
  have hruns : w.runIds t = w.runIds s := by rw [Work.runIds, Work.runIds, hl.receipts]
  have hwritten : w.written t = w.written s := by
    rw [Work.written, Work.written, hruns, hf.evidence]
  have hnoData : w.recordedNoData t = w.recordedNoData s := by
    rw [Work.recordedNoData, Work.recordedNoData, hf.noData]
  have hrejected : w.rejected t = w.rejected s := by
    rw [Work.rejected, Work.rejected, Work.errorIssues, Work.errorIssues, hruns, hf.issues]
  exact ⟨fun h => h.congr hwritten.symm hnoData.symm hrejected.symm rfl rfl rfl,
    fun h => h.congr hwritten hnoData hrejected rfl rfl rfl⟩

theorem recordedNoData_daily {work : Work} {k : MemberKey} (h : k ∈ work.recordedNoData s) :
    work.kind = .daily := by
  unfold Work.recordedNoData at h
  split at h
  · assumption
  · cases h

theorem coverage_accounts {work : Work} {m : EODMemberResult} {c : Coverage}
    (h : coverage cfg s work m = .ok c) : Accounts cfg s work m c := by
  unfold coverage at h
  split at h
  · rename_i hwritten
    have hwritten : m.memberKey ∈ work.written s := by simpa using hwritten
    split at h
    · rename_i hdata
      cases h
      exact .written hwritten (by simpa using hdata)
    · cases h
  · rename_i hwritten
    have hwritten : m.memberKey ∉ work.written s := by simpa using hwritten
    cases ho : m.outcome with
    | data => simp only [ho] at h; cases h
    | noData =>
      simp only [ho] at h
      split at h
      · rename_i hrecorded
        cases h
        have hrecorded : m.memberKey ∈ work.recordedNoData s := by simpa using hrecorded
        exact .noData hwritten ho (recordedNoData_daily hrecorded) hrecorded
      · cases h
    | mappingGap =>
      simp only [ho] at h
      split at h
      · rename_i hgap
        cases h
        exact .mappingGap hwritten ho hgap
      · cases h
    | invalid =>
      simp only [ho] at h
      split at h
      · rename_i hgap
        cases h
        rcases Bool.or_eq_true_iff.mp hgap with hrejected | hraw
        · exact .rejected hwritten ho (by simpa using hrejected)
        · exact .raw hwritten (Or.inl ho) hraw
      · cases h
    | missing =>
      simp only [ho] at h
      split at h
      · rename_i hgap
        cases h
        exact .raw hwritten (Or.inr ho) (by simpa using hgap)
      · cases h

/-! ## The document -/

/-- A schema-valid document that names exactly the frozen members, each with one
proven verdict; only a partial work has a gap. -/
structure Classified (cfg : Config) (s : Db) (work : Work) (doc : EODCompletionEvidence) : Prop where
  valid : doc.valid = true
  members : ∀ k, k ∈ work.expectedKeys ↔ ∃ m ∈ doc.members, m.memberKey = k
  verdict : ∀ m ∈ doc.members, ∃ c, Accounts cfg s work m c
  gaps : work.state = .partly ↔ ∃ m ∈ doc.members, Accounts cfg s work m .gap

/-- A document accepted once names a member once. -/
theorem Classified.member_unique {work : Work} {doc : EODCompletionEvidence}
    (h : Classified cfg s work doc) {m m' : EODMemberResult} (hm : m ∈ doc.members)
    (hm' : m' ∈ doc.members) (hk : m.memberKey = m'.memberKey) : m = m' := by
  have hvalid := h.valid
  simp only [EODCompletionEvidence.valid, Bool.and_eq_true, decide_eq_true_eq] at hvalid
  exact List.inj_on_of_nodup_map hvalid.2 hm hm' hk

/-- Every frozen member has exactly one verdict. -/
theorem Classified.existsUnique {work : Work} {doc : EODCompletionEvidence}
    (h : Classified cfg s work doc) {k : MemberKey} (hk : k ∈ work.expectedKeys) :
    ∃! c, ∃ m ∈ doc.members, m.memberKey = k ∧ Accounts cfg s work m c := by
  obtain ⟨m, hm, hmk⟩ := (h.members k).mp hk
  obtain ⟨c, hc⟩ := h.verdict m hm
  refine ⟨c, ⟨m, hm, hmk, hc⟩, ?_⟩
  rintro c' ⟨m', hm', hmk', hc'⟩
  have heq := h.member_unique hm' hm (hmk'.trans hmk.symm)
  exact (heq ▸ hc').unique hc

/-- What `validate_eod_completion` accepts is classified. -/
theorem validate_classified {work : Work} {doc : EODCompletionEvidence} {o : Outcome}
    {proofs : List Coverage} (hvalid : doc.valid = true) (utc : Instant)
    (ho : o = .completed ∨ o = .partly)
    (h : validateEodCompletion cfg s work doc o = .ok proofs) :
    Classified cfg s { work with state := o.workState, completedAt := some utc } doc := by
  unfold validateEodCompletion at h
  obtain ⟨_, _, h⟩ := ok_bind h
  obtain ⟨_, hkeys, h⟩ := ok_bind h
  obtain ⟨_, _, h⟩ := ok_bind h
  obtain ⟨_, _, h⟩ := ok_bind h
  obtain ⟨_, _, h⟩ := ok_bind h
  obtain ⟨ps, hps, h⟩ := ok_bind h
  obtain ⟨_, hgap, h⟩ := ok_bind h
  obtain ⟨hforth, hback⟩ := mapM_ok hps
  have hkeys := ensure_ok.mp hkeys
  have hgap := ensure_ok.mp hgap
  simp only [Bool.and_eq_true] at hkeys
  simp only [beq_iff_eq] at hgap
  refine ⟨hvalid, fun k => ?_, fun m hm => ?_, ?_⟩
  · refine (sameSet_iff.mp hkeys.2 k).symm.trans ?_
    simp [EODCompletionEvidence.keys]
  · obtain ⟨c, _, hc⟩ := hforth m hm
    exact ⟨c, (accounts_restate _ _).mpr (coverage_accounts hc)⟩
  · have hpartly : o.workState = .partly ↔ ps.contains .gap = true := by
      rw [← hgap]
      rcases ho with rfl | rfl <;> simp [Outcome.workState]
    simp only [accounts_restate]
    refine hpartly.trans ?_
    rw [List.contains_iff_mem]
    constructor
    · intro hmem
      obtain ⟨m, hm, hc⟩ := hback _ hmem
      exact ⟨m, hm, coverage_accounts hc⟩
    · rintro ⟨m, hm, hc⟩
      obtain ⟨c, hcs, hcov⟩ := hforth m hm
      have hsame : c = .gap := (coverage_accounts hcov).unique hc
      exact hsame ▸ hcs

/-! ## The moment of the settlement -/

/-- The document is part of the proof of a settled round of the work. -/
def Recorded (s : Db) (work : Work) (doc : EODCompletionEvidence) : Prop :=
  ∃ a ∈ s.attempts, a.workId = work.workId ∧ a.state = .settled ∧
    a.proof.bind (·.eod) = some doc

/-- The settled outcome of an EOD v2 work is the one its recorded document proves. -/
def Proven (cfg : Config) (s : Db) (work : Work) : Prop :=
  work.isEodV2 = true → work.state = .completed ∨ work.state = .partly →
    ∃ doc, Recorded s work doc ∧ Classified cfg s work doc

theorem Outcome.workState_inj {o : Outcome} (h : o.workState = .completed ∨ o.workState = .partly) :
    o = .completed ∨ o = .partly := by
  cases o <;> simp_all [Outcome.workState]

/-- An EOD v2 settlement as completed or partial has passed the validator. -/
theorem settleEvidence_validated {work : Work} {validated : Option Uuid} {r : Settlement}
    (heod : work.isEodV2 = true) (ho : r.outcome = .completed ∨ r.outcome = .partly)
    (h : settleEvidence cfg s work validated r = .ok ()) :
    ∃ doc proofs, r.proof.eod = some doc ∧ doc.valid = true ∧
      validateEodCompletion cfg s work doc r.outcome = .ok proofs := by
  have hbranch : (r.outcome == .partly || (r.outcome == .completed && work.isEodV2)) = true := by
    rcases ho with ho | ho <;> simp [ho, heod]
  unfold settleEvidence at h
  rw [if_pos hbranch] at h
  obtain ⟨doc, hdoc, h⟩ := ok_bind h
  obtain ⟨proofs, hproofs, _⟩ := ok_bind h
  obtain ⟨hsome, hvalid⟩ := Option.filter_eq_some_iff.mp (need_ok.mp hdoc)
  exact ⟨doc, proofs, hsome, hvalid, mapError_ok hproofs⟩

theorem Classified.leftAlone {work : Work} {doc : EODCompletionEvidence} (hf : SameFacts s t)
    (hl : LeftAlone s t work.workId) (h : Classified cfg s work doc) : Classified cfg t work doc := by
  refine ⟨h.valid, h.members, fun m hm => ?_, ?_⟩
  · obtain ⟨c, hc⟩ := h.verdict m hm
    exact ⟨c, (accounts_leftAlone hf hl).mpr hc⟩
  · simp only [accounts_leftAlone hf hl]
    exact h.gaps

theorem Ended.proven {w : Work} (h : Ended cfg mode s t w) : Proven cfg t w := by
  intro heod hst
  cases h with
  | @settled work attempt utc r validated held closed checked domain left =>
    subst left
    have ho := Outcome.workState_inj hst
    obtain ⟨doc, proofs, hdoc, hvalid, hproofs⟩ := settleEvidence_validated heod ho checked.evidence
    have hclass := validate_classified hvalid utc ho hproofs
    refine ⟨doc, ⟨_, (Table.mem_modify_row (by intro _; rfl) held.mem).mpr (Or.inr rfl),
      held.ofWork, rfl, ?_⟩, ⟨hclass.valid, hclass.members, fun m hm => ?_, ?_⟩⟩
    · exact hdoc
    · obtain ⟨c, hc⟩ := hclass.verdict m hm
      exact ⟨c, hc.congr rfl rfl rfl rfl rfl rfl⟩
    · refine hclass.gaps.trans ⟨?_, ?_⟩
      · rintro ⟨m, hm, hc⟩
        exact ⟨m, hm, hc.congr rfl rfl rfl rfl rfl rfl⟩
      · rintro ⟨m, hm, hc⟩
        exact ⟨m, hm, hc.congr rfl rfl rfl rfl rfl rfl⟩
  | cancelled => rcases hst with hst | hst <;> cases hst

theorem Recorded.leftAlone {work : Work} {doc : EODCompletionEvidence}
    (hl : LeftAlone s t work.workId) (h : Recorded s work doc) : Recorded t work doc := by
  obtain ⟨a, ha, hof, hset, hdoc⟩ := h
  exact ⟨a, (hl.rounds a hof).mpr ha, hof, hset, hdoc⟩

theorem Proven.leftAlone {work : Work} (hf : SameFacts s t) (hl : LeftAlone s t work.workId)
    (h : Proven cfg s work) : Proven cfg t work := by
  intro heod hst
  obtain ⟨doc, hrecorded, hclass⟩ := h heod hst
  exact ⟨doc, hrecorded.leftAlone hl, hclass.leftAlone hf hl⟩

/-! ## Later states -/

/-- Facts are only added. -/
structure Grows (s t : Db) : Prop where
  evidence : ∀ e ∈ s.evidence, e ∈ t.evidence
  issues : ∀ i ∈ s.issues, i ∈ t.issues
  noData : ∀ e ∈ s.noData, e ∈ t.noData

theorem Grows.refl (s : Db) : Grows s s := ⟨fun _ h => h, fun _ h => h, fun _ h => h⟩

theorem Grows.trans {u : Db} (h : Grows s t) (h' : Grows t u) : Grows s u :=
  ⟨fun e he => h'.evidence e (h.evidence e he), fun i hi => h'.issues i (h.issues i hi),
    fun e he => h'.noData e (h.noData e he)⟩

theorem Env.grows (h : Env s t) : Grows s t := by
  obtain ⟨more, he⟩ := h.evidence
  obtain ⟨more', hi⟩ := h.issues
  obtain ⟨more'', hn⟩ := h.noData
  refine ⟨?_, ?_, ?_⟩
  · rw [he]; exact fun _ hmem => List.mem_append_left _ hmem
  · rw [hi]; exact fun _ hmem => List.mem_append_left _ hmem
  · rw [hn]; exact fun _ hmem => List.mem_append_left _ hmem

theorem SameFacts.grows (h : SameFacts s t) : Grows s t := by
  refine ⟨?_, ?_, ?_⟩
  · rw [h.evidence]; exact fun _ hmem => hmem
  · rw [h.issues]; exact fun _ hmem => hmem
  · rw [h.noData]; exact fun _ hmem => hmem

theorem Steps.grows (h : Steps cfg s t) (hr : Reachable cfg s) : Grows s t :=
  h.transRel (I := fun _ => True) Grows.refl (fun _ _ _ => Grows.trans) (fun _ _ _ _ => trivial)
    (fun _ _ _ _ => trivial) (fun _ _ => Env.grows) (fun _ _ ht _ => (trans_facts ht).grows)
    hr.requestsEnded trivial

/-- A gap that stands on a durable row or on recorded raw bytes. -/
def ProvenGap (cfg : Config) (s : Db) (work : Work) (k : MemberKey) : Prop :=
  work.frozenGap k = true ∨ k ∈ work.rejected s ∨
    ∃ doc, Recorded s work doc ∧ ∃ m ∈ doc.members, m.memberKey = k ∧ m.rawGap cfg work = true

/-- What a verdict says of the facts in a later state. -/
def Backed (cfg : Config) (s : Db) (work : Work) (k : MemberKey) : Coverage → Prop
  | .written => k ∈ work.written s
  | .noData => work.kind = .daily ∧ k ∈ work.recordedNoData s
  | .gap => ProvenGap cfg s work k

theorem written_grows {work : Work} {k : MemberKey} (hg : Grows s t)
    (hl : LeftAlone s t work.workId) (h : k ∈ work.written s) : k ∈ work.written t := by
  have hruns : work.runIds t = work.runIds s := by rw [Work.runIds, Work.runIds, hl.receipts]
  simp only [Work.written, List.mem_map, List.mem_filter, hruns] at h ⊢
  obtain ⟨e, ⟨he, hrun⟩, hk⟩ := h
  exact ⟨e, ⟨hg.evidence e he, hrun⟩, hk⟩

theorem recordedNoData_grows {work : Work} {k : MemberKey} (hg : Grows s t)
    (h : k ∈ work.recordedNoData s) : k ∈ work.recordedNoData t := by
  unfold Work.recordedNoData at h ⊢
  split at h
  · simp only [List.mem_map, List.mem_filter] at h ⊢
    obtain ⟨e, ⟨he, hplan⟩, hk⟩ := h
    exact ⟨e, ⟨hg.noData e he, hplan⟩, hk⟩
  · cases h

theorem rejected_grows {work : Work} {k : MemberKey} (hg : Grows s t)
    (hl : LeftAlone s t work.workId) (h : k ∈ work.rejected s) : k ∈ work.rejected t := by
  have hruns : work.runIds t = work.runIds s := by rw [Work.runIds, Work.runIds, hl.receipts]
  simp only [Work.rejected, Work.errorIssues, List.mem_map, List.mem_filter, hruns] at h ⊢
  obtain ⟨i, ⟨⟨hi, hrun⟩, hdate⟩, hk⟩ := h
  exact ⟨i, ⟨⟨hg.issues i hi, hrun⟩, hdate⟩, hk⟩

/-- The fact behind a verdict still stands later. -/
theorem Accounts.backed {work : Work} {doc : EODCompletionEvidence} {m : EODMemberResult}
    {c : Coverage} (hg : Grows s t) (hl : LeftAlone s t work.workId)
    (hrecorded : Recorded s work doc) (hm : m ∈ doc.members) (h : Accounts cfg s work m c) :
    Backed cfg t work m.memberKey c := by
  cases h with
  | written mem => exact written_grows hg hl mem
  | noData _ _ daily recorded => exact ⟨daily, recordedNoData_grows hg recorded⟩
  | mappingGap _ _ frozen => exact Or.inl frozen
  | rejected _ _ rejected => exact Or.inr (Or.inl (rejected_grows hg hl rejected))
  | raw _ _ raw => exact Or.inr (Or.inr ⟨doc, hrecorded.leftAlone hl, m, hm, rfl, raw⟩)

/-- The operation that settled a completed or partial EOD v2 work, and the document
that gave every frozen member its verdict then. -/
theorem exists_classified (registry : Registry) (ops : List Op) {w : Work}
    (hw : w ∈ (after cfg registry ops).works) (heod : w.isEodV2 = true)
    (hst : w.state = .completed ∨ w.state = .partly) :
    ∃ pre op post doc, ops = pre ++ op :: post ∧ EndedBy cfg registry ops pre op w.workId ∧
      Recorded (after cfg registry ops) w doc ∧
      Classified cfg (after cfg registry (pre ++ [op])) w doc ∧
      ∀ m ∈ doc.members, ∀ c, Accounts cfg (after cfg registry (pre ++ [op])) w m c →
        Backed cfg (after cfg registry ops) w m.memberKey c := by
  have hterm : w.state.terminal = true := by rcases hst with hst | hst <;> rw [hst] <;> rfl
  obtain ⟨pre, op, post, hops, hby, _, hl, hproven⟩ :=
    exists_endedBy (Q := Proven cfg) (fun _ _ _ _ hended => hended.proven)
      (fun _ _ _ hf hl hq => hq.leftAlone hf hl) registry ops hw hterm
  obtain ⟨doc, hrecorded, hclass⟩ := hproven heod hst
  refine ⟨pre, op, post, doc, hops, hby, hrecorded.leftAlone hl, hclass, fun m hm c hc => ?_⟩
  have hsteps : Steps cfg (after cfg registry (pre ++ [op])) (after cfg registry ops) := by
    rw [hops, List.append_cons pre op post]
    exact steps_after registry (pre ++ [op]) post
  exact hc.backed (hsteps.grows (reachable_after registry _)) hl hrecorded hm

/-- **Completed means proven coverage.** After any run every frozen member of a
completed EOD v2 work is written or recorded as no-data, and a partial one has a
proven gap and no member without proof. The operation that settled it found, for
the document it recorded, exactly one verdict for every member. -/
theorem eod_covered (registry : Registry) (ops : List Op) {w : Work}
    (hw : w ∈ (after cfg registry ops).works) (heod : w.isEodV2 = true) :
    (w.state = .completed → ∀ k ∈ w.expectedKeys, k ∈ w.written (after cfg registry ops) ∨
      (w.kind = .daily ∧ k ∈ w.recordedNoData (after cfg registry ops))) ∧
    (w.state = .partly → (∃ k ∈ w.expectedKeys, ProvenGap cfg (after cfg registry ops) w k) ∧
      ∀ k ∈ w.expectedKeys, k ∈ w.written (after cfg registry ops) ∨
        (w.kind = .daily ∧ k ∈ w.recordedNoData (after cfg registry ops)) ∨
        ProvenGap cfg (after cfg registry ops) w k) ∧
    (w.state = .completed ∨ w.state = .partly →
      ∃ pre op post doc, ops = pre ++ op :: post ∧ EndedBy cfg registry ops pre op w.workId ∧
        Recorded (after cfg registry ops) w doc ∧ doc.valid = true ∧
        (∀ k ∈ w.expectedKeys, ∃! c, ∃ m ∈ doc.members, m.memberKey = k ∧
          Accounts cfg (after cfg registry (pre ++ [op])) w m c) ∧
        (w.state = .partly ↔ ∃ k ∈ w.expectedKeys, ∃ m ∈ doc.members, m.memberKey = k ∧
          Accounts cfg (after cfg registry (pre ++ [op])) w m .gap)) := by
  refine ⟨fun hst k hk => ?_, fun hst => ?_, fun hst => ?_⟩
  · obtain ⟨_, _, _, doc, _, _, _, hclass, hbacked⟩ :=
      exists_classified registry ops hw heod (Or.inl hst)
    obtain ⟨m, hm, rfl⟩ := (hclass.members k).mp hk
    obtain ⟨c, hc⟩ := hclass.verdict m hm
    cases c with
    | written => exact Or.inl (hbacked m hm _ hc)
    | noData => exact Or.inr (hbacked m hm _ hc)
    | gap =>
      have hpartly := hclass.gaps.mpr ⟨m, hm, hc⟩
      rw [hst] at hpartly
      cases hpartly
  · obtain ⟨_, _, _, doc, _, _, _, hclass, hbacked⟩ :=
      exists_classified registry ops hw heod (Or.inr hst)
    refine ⟨?_, fun k hk => ?_⟩
    · obtain ⟨m, hm, hc⟩ := hclass.gaps.mp hst
      exact ⟨m.memberKey, (hclass.members _).mpr ⟨m, hm, rfl⟩, hbacked m hm _ hc⟩
    · obtain ⟨m, hm, rfl⟩ := (hclass.members k).mp hk
      obtain ⟨c, hc⟩ := hclass.verdict m hm
      cases c with
      | written => exact Or.inl (hbacked m hm _ hc)
      | noData => exact Or.inr (Or.inl (hbacked m hm _ hc))
      | gap => exact Or.inr (Or.inr (hbacked m hm _ hc))
  · obtain ⟨pre, op, post, doc, hops, hby, hrecorded, hclass, _⟩ :=
      exists_classified registry ops hw heod hst
    refine ⟨pre, op, post, doc, hops, hby, hrecorded, hclass.valid,
      fun k hk => hclass.existsUnique hk, hclass.gaps.trans ⟨?_, ?_⟩⟩
    · rintro ⟨m, hm, hc⟩
      exact ⟨m.memberKey, (hclass.members _).mpr ⟨m, hm, rfl⟩, m, hm, rfl, hc⟩
    · rintro ⟨k, _, m, hm, _, hc⟩
      exact ⟨m, hm, hc⟩

/-! ## A partial day -/

/-- Day 39 of one plan: member A is mapped and member B has no symbol. -/
def eodRegistry : Registry :=
  { bareRegistry .twelveData "us_equity_eod" with
    runs := fun _ =>
      { cleanRun .twelveData "us_equity_eod" with
        batchDataDate := some 39, schemaId := some "market_eod", schemaVersion := some 2 }
    datasets := fun _ => some ⟨true, some ⟨"market_eod", [2], [.twelveData]⟩, none⟩
    effectiveDays := fun _ _ _ => .ok [⟨39, true, 0, "UTC"⟩]
    controls := fun _ => some ⟨.twelveData, true, false⟩
    plans := fun _ => some ⟨.twelveData, "us_equity_eod", 39, .pilot,
      [⟨"A", "mapped", some "A", "A", "NASDAQ", "USD"⟩, ⟨"B", "gap", none, "B", "NASDAQ", "USD"⟩]⟩ }

def eodManifest : Manifest where
  members := [⟨"A", some "mapped", some "A", none⟩, ⟨"B", some "gap", none, none⟩]
  contract := some marketEodV2
  calendarSkip := false
  planId := some (.uuid 20)
  mode := none
  noDataEvidence := []
  universeReleaseId := none

/-- A is delivered and written, B is reported as the mapping gap it is. -/
def eodPartialDay : List Op :=
  let identity : FenceIdentity := ⟨1, 1, 7⟩
  let document : EODCompletionEvidence :=
    ⟨2, "market_eod", 2, 39, [⟨"A", .data, none, none⟩, ⟨"B", .mappingGap, none, none⟩], none, none⟩
  [.enqueue (40 * day) (1, 2) ["us_equity_eod"]
      ⟨.daily .pilot "us_equity_eod" 39, .daily, "us_equity_eod", some 39, some .pilot, Scope.empty,
        none⟩,
    .claim (40 * day) (40 * day) 7 (hostClaim false),
    .mutate (40 * day) ["us_equity_eod"] identity (.manifest (some eodManifest)),
    .ingest (40 * day) ⟨identity, "A", none⟩ "us_equity_eod" (some 39) 30 "sha" none false,
    .addEvidence 30 "A",
    .mutate (40 * day) ["us_equity_eod"] identity .close,
    .mutate (40 * day) ["us_equity_eod"] identity
      (.settle ⟨.partly, { Proof.empty with eod := some document }, none, none⟩ 3)]

theorem eod_covered_partial_day :
    ∃ w ∈ (after (utcConfig .twelveData) eodRegistry eodPartialDay).works,
      w.state = .partly ∧ w.expectedKeys = ["A", "B"] ∧
      ∃ k ∈ w.expectedKeys, ProvenGap (utcConfig .twelveData)
        (after (utcConfig .twelveData) eodRegistry eodPartialDay) w k := by
  have hrow : ∃ w, w ∈ (after (utcConfig .twelveData) eodRegistry eodPartialDay).works ∧
      w.isEodV2 = true ∧ w.state = .partly ∧ w.expectedKeys = ["A", "B"] :=
    ⟨_, List.mem_singleton.mpr rfl, rfl, rfl, rfl⟩
  obtain ⟨w, hw, heod, hst, hkeys⟩ := hrow
  exact ⟨w, hw, hst, hkeys, ((eod_covered eodRegistry eodPartialDay hw heod).2.1 hst).1⟩

end FinDB.ProviderWork
