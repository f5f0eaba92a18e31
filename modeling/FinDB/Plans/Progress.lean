import FinDB.Plans.Placed

/-! # The progress of a plan

A canonical row alone can be overwritten by another run; evidence cannot. Where no run of
a part reaches an instrument of another part of its plan, each counted row has evidence of
the run that wrote it, and no member that was proved is ever demoted. -/
namespace FinDB.Plans
open FinDB.Lib

variable {cfg : Config} {s t : State} {ws : List Write} {op : Op} {plan : Plan}

/-! ## Rows inside their part -/

/-- The symbol is a key of the plan the part is of. -/
def NamesMember (s : State) (p : Uuid) (symbol : String) : Prop :=
  ∃ m ∈ s.members, m.memberKey = symbol ∧ ∃ q ∈ s.members, q.partId = p ∧ q.planId = m.planId

/-- No row of an EOD part resolves to a member of another part of its plan. -/
def StaysInPart (cfg : Config) (s : State) : Op → Prop
  | .complete runId _ _ verdict => ∀ run, s.runs.find? runId = some run → ∀ p,
      run.deliveryPartId = some p → run.payload.schema = .marketEod → ∀ instrument,
      Reaches cfg s run (judged cfg run verdict) instrument → NamesMember s p instrument.symbol →
      instrument.symbol ∈ s.expected p
  | _ => True

/-- A canonical row of a run's part, for a member of the plan, has evidence of that run. -/
def Credited (s : State) : Prop :=
  ∀ c ∈ s.canonical, c.slot.schema ≠ .marketMinute → ∀ r run p, c.runId = some r →
    s.runs.find? r = some run → run.deliveryPartId = some p → NamesMember s p c.slot.memberKey →
    (r, c.slot.memberKey) ∈ s.evidence

theorem Credited.init : Credited State.init := by
  intro c hc
  cases hc

/-- The members of a plan a placed run is of are no new ones. -/
theorem namesMember_back (hs : Placed s) (h : op.writes cfg s = .ok ws) {p : Uuid} {key : String}
    (hp : (s.parts.find? p).isSome) (hn : NamesMember (s.writeAll ws) p key) :
    NamesMember s p key := by
  obtain ⟨m, hm, hkey, q, hq, hpart, hplan⟩ := hn
  rcases members_from ws hq with ⟨q₀, hq₀, hqf⟩ | ⟨q₀, hadd, hqf⟩
  · rw [Member.partId_of_frozen hqf] at hpart
    rw [Member.planId_of_frozen hqf] at hplan
    rcases members_from ws hm with ⟨m₀, hm₀, hmf⟩ | ⟨m₀, hadd, hmf⟩
    · rw [Member.memberKey_of_frozen hmf] at hkey
      rw [Member.planId_of_frozen hmf] at hplan
      exact ⟨m₀, hm₀, hkey, q₀, hq₀, hpart, hplan⟩
    · have hfresh := (addMember_of_wrote (wrote h hadd)).1
      rw [← Member.planId_of_frozen hmf, ← hplan] at hfresh
      have hthere := hs.members q₀ hq₀
      rw [hfresh] at hthere
      cases hthere
  · have hfresh := (addMember_of_wrote (wrote h hadd)).2
    rw [← Member.partId_of_frozen hqf, hpart] at hfresh
    rw [hfresh] at hp
    cases hp

theorem mem_judged {run : IngestionRun} {verdict : Nat → Verdict} {row : PayloadRow × Verdict}
    (h : row ∈ judged cfg run verdict) : row.1 ∈ run.payload.rows := by
  obtain ⟨i, hi, rfl⟩ := List.mem_mapIdx.mp h
  exact (List.mem_filter.mp (List.getElem_mem hi)).1

/-- What a run writes stays in its part. -/
theorem Writes.expected {runId : Uuid} {ncfg : Canonical.NormalizerConfig} {now : Instant}
    {verdict : Nat → Verdict} {run : IngestionRun} {c : CanonicalRow} {p : Uuid} (hs : Placed s)
    (hstays : StaysInPart cfg s (.complete runId ncfg now verdict))
    (hrun : s.runs.find? runId = some run)
    (h : Writes cfg s run (judged cfg run verdict) c) (hschema : c.slot.schema ≠ .marketMinute)
    (hp : run.deliveryPartId = some p) (hn : NamesMember s p c.slot.memberKey) :
    c.slot.memberKey ∈ s.expected p ∧ c.slot.schema = run.payload.schema := by
  obtain ⟨-, row, hrow, instrument, hslot, hreach, hown⟩ := h
  have hrow' := mem_judged hrow
  have htyped := run.payload.typed row.1 hrow'
  have hkeys := (hs.runs run (Table.find?_eq_some.mp hrun).1 p hp).2 row.1 hrow'
  rw [hslot] at hschema hn ⊢
  cases hr : row.1 with
  | eod symbol source date =>
    rw [hr] at hn htyped
    exact ⟨hstays run hrun p hp htyped.symm instrument hreach hn, htyped⟩
  | minute symbol source date start =>
    rw [hr] at hschema
    exact absurd rfl hschema
  | futures product contract date session =>
    rw [hr] at hown hkeys htyped
    rw [hown rfl]
    exact ⟨hkeys, htyped⟩

theorem Completes.canonical {run : IngestionRun} {rows : List (PayloadRow × Verdict)}
    {p : Progress} (h : Completes cfg s run rows p ws) :
    (s.writeAll ws).canonical = p.state.canonical := by
  obtain ⟨status, counts, -, rfl⟩ := h.writes
  rw [writeAll_append, writeAll_append, ← h.normalizing.state]
  refine writeAll_inv (P := fun v => v.canonical = p.state.canonical) (fun v w hw hv => ?_) rfl
  obtain ⟨key, -, rfl⟩ := List.mem_map.mp hw
  exact hv

/-- Rows of the run that its part expects are credited. -/
theorem Completes.credits {run : IngestionRun} {rows : List (PayloadRow × Verdict)}
    {prog : Progress} (h : Completes cfg s run rows prog ws) {c : CanonicalRow} {p : Uuid}
    (hc : c ∈ (s.writeAll ws).canonical) (hid : c.runId = some run.runId)
    (hschema : c.slot.schema = run.payload.schema) (hp : run.deliveryPartId = some p)
    (hkey : c.slot.memberKey ∈ s.expected p) :
    (run.runId, c.slot.memberKey) ∈ (s.writeAll ws).evidence := by
  refine (mem_evidence ws).mpr (Or.inr ?_)
  rw [h.canonical] at hc
  obtain ⟨status, counts, -, rfl⟩ := h.writes
  refine List.mem_append_right _ (List.mem_map_of_mem (f := Write.addEvidence run.runId) ?_)
  have hexp : c.slot.memberKey ∈ prog.state.expected p := by
    rw [h.normalizing.state]
    exact expected_kept _ hkey
  unfold State.deliveryEvidence
  rw [hp]
  refine List.mem_filter.mpr ⟨List.mem_map_of_mem (List.mem_filter.mpr ⟨hc, ?_⟩),
    List.contains_iff_mem.mpr hexp⟩
  rw [hschema, hid]
  simp

theorem Credited.writeAll (hc : Credited s) (hs : Placed s) (h : op.writes cfg s = .ok ws)
    (hstays : StaysInPart cfg s op) : Credited (s.writeAll ws) := by
  intro c hmem hschema r run p hr hrun hp hn
  rcases canonical_from ws hmem with hold | hput
  · obtain ⟨run₀, hrun₀, -⟩ := hs.canonical c hold r hr
    obtain ⟨run', hrun', hf⟩ := runs_kept ws hrun₀
    cases hrun'.symm.trans hrun
    rw [IngestionRun.part_of_frozen hf] at hp
    have hpart := (hs.runs run₀ (Table.find?_eq_some.mp hrun₀).1 p hp).1
    exact (mem_evidence ws).mpr (Or.inl
      (hc c hold hschema r run₀ p hr hrun₀ hp (namesMember_back hs h hpart hn)))
  · obtain ⟨runId, ncfg, now, verdict, run₀, rfl, hrun₀, hwrites⟩ :=
      putCanonical_of_wrote (wrote h hput)
    obtain ⟨run', hrun', hcompletes⟩ := complete_ok h
    cases hrun'.symm.trans hrun₀
    have hid := (Table.find?_eq_some.mp hrun₀).2
    cases hr.symm.trans hwrites.1
    obtain ⟨run', hrun', hf⟩ := runs_kept ws (hid ▸ hrun₀ : s.runs.find? run₀.runId = some run₀)
    cases hrun'.symm.trans hrun
    rw [IngestionRun.part_of_frozen hf] at hp
    have hpart := (hs.runs run₀ (Table.find?_eq_some.mp hrun₀).1 p hp).1
    obtain ⟨hkey, hsame⟩ := hwrites.expected hs hstays hrun₀ hschema hp
      (namesMember_back hs h hpart hn)
    exact hcompletes.credits hmem hwrites.1 hsame hp hkey

/-! ## What stays -/

/-- What no operation takes back. -/
structure Later (s t : State) : Prop where
  runs : ∀ id run, s.runs.find? id = some run → ∃ run', t.runs.find? id = some run' ∧
    run'.frozen = run.frozen ∧ (succeeded run.status = true → run'.status = run.status)
  evidence : s.evidence ⊆ t.evidence
  receipts : ∀ id r, s.receipts.find? id = some r → t.receipts.find? id = some r
  works : ∀ id w, s.works.find? id = some w → ∃ w', t.works.find? id = some w' ∧
    { w' with manifest := w.manifest } = w ∧ (w.manifest.isSome → w'.manifest = w.manifest)
  plans : ∀ plan ∈ s.plans, plan ∈ t.plans
  members : ∀ m ∈ s.members, ∃ m' ∈ t.members, m'.frozen = m.frozen ∧
    (m.outcome = some .noData → m'.outcome = some .noData)
  back : ∀ m' ∈ t.members, (∃ plan ∈ s.plans, plan.planId = m'.planId) →
    ∃ m ∈ s.members, m'.frozen = m.frozen

theorem Later.refl (s : State) : Later s s where
  runs _ run h := ⟨run, h, rfl, fun _ => rfl⟩
  evidence := List.Subset.refl _
  receipts _ _ h := h
  works _ w h := ⟨w, h, rfl, fun _ => rfl⟩
  plans _ h := h
  members m h := ⟨m, h, rfl, id⟩
  back m h _ := ⟨m, h, rfl⟩

theorem Later.trans {u : State} (h : Later s t) (h' : Later t u) : Later s u where
  runs id run hrun := by
    obtain ⟨run', hrun', hf, hstatus⟩ := h.runs id run hrun
    obtain ⟨run'', hrun'', hf', hstatus'⟩ := h'.runs id run' hrun'
    refine ⟨run'', hrun'', hf'.trans hf, fun hok => ?_⟩
    rw [hstatus' (by rw [hstatus hok]; exact hok), hstatus hok]
  evidence e he := h'.evidence (h.evidence he)
  receipts id r hr := h'.receipts id r (h.receipts id r hr)
  works id w hw := by
    obtain ⟨w', hw', hsame, hmanifest⟩ := h.works id w hw
    obtain ⟨w'', hw'', hsame', hmanifest'⟩ := h'.works id w' hw'
    refine ⟨w'', hw'', ?_, fun hm => ?_⟩
    · rw [← hsame, ← hsame']
    · rw [hmanifest' (by rw [hmanifest hm]; exact hm), hmanifest hm]
  plans plan hplan := h'.plans plan (h.plans plan hplan)
  members m hm := by
    obtain ⟨m', hm', hf, hout⟩ := h.members m hm
    obtain ⟨m'', hm'', hf', hout'⟩ := h'.members m' hm'
    exact ⟨m'', hm'', hf'.trans hf, fun ho => hout' (hout ho)⟩
  back m hm hplan := by
    obtain ⟨plan, hmem, hid⟩ := hplan
    obtain ⟨m', hm', hf⟩ := h'.back m hm ⟨plan, h.plans plan hmem, hid⟩
    obtain ⟨m'', hm'', hf'⟩ := h.back m' hm' ⟨plan, hmem, hid.trans (Member.planId_of_frozen hf)⟩
    exact ⟨m'', hm'', hf.trans hf'⟩

theorem receipts_kept {id : Uuid} {r : ProviderWork.Receipt} (ws : List Write)
    (h : s.receipts.find? id = some r) : (s.writeAll ws).receipts.find? id = some r := by
  refine writeAll_inv (P := fun u => u.receipts.find? id = some r) (fun u w _ hu => ?_) h
  cases w with
  | addReceipt new =>
    change (u.receipts.insertNew new).find? id = some r
    rw [Table.find?_insertNew, hu]
    rfl
  | _ => exact hu

/-- A work changes by its manifest alone, and only where one is written. -/
theorem works_kept {id : Uuid} {w : ProviderWork.Work} (ws : List Write)
    (h : s.works.find? id = some w) : ∃ w', (s.writeAll ws).works.find? id = some w' ∧
      { w' with manifest := w.manifest } = w ∧
      ((∀ manifest, .setManifest id manifest ∉ ws) → w' = w) := by
  refine writeAll_inv (P := fun u => ∃ w', u.works.find? id = some w' ∧
    { w' with manifest := w.manifest } = w ∧
    ((∀ manifest, .setManifest id manifest ∉ ws) → w' = w)) (fun u x hx hu => ?_)
    ⟨w, h, rfl, fun _ => rfl⟩
  obtain ⟨w', hfind, hsame, hquiet⟩ := hu
  cases x with
  | addWork new =>
    refine ⟨w', ?_, hsame, hquiet⟩
    change (u.works.insertNew new).find? id = _
    rw [Table.find?_insertNew, hfind]
    rfl
  | setManifest workId manifest =>
    have hnext : (u.write (.setManifest workId manifest)).works.find? id =
        some (if id = workId then { w' with manifest := some manifest } else w') := by
      change (u.works.modify workId ({ · with manifest := some manifest })).find? id = _
      rw [Table.find?_modify, hfind]
      rfl
    by_cases hid : id = workId
    · subst hid
      rw [if_pos rfl] at hnext
      exact ⟨_, hnext, hsame, fun hno => absurd hx (hno manifest)⟩
    · rw [if_neg hid] at hnext
      exact ⟨w', hnext, hsame, hquiet⟩
  | _ => exact ⟨w', hfind, hsame, hquiet⟩

/-- A member changes by its outcome alone, and only where one is recorded. -/
theorem member_kept {key : Uuid × MemberKey} {m : Member} (ws : List Write)
    (h : s.members.find? key = some m) : ∃ m', (s.writeAll ws).members.find? key = some m' ∧
      m'.frozen = m.frozen ∧ ((∀ entry, .setOutcome key.1 key.2 entry ∉ ws) → m' = m) := by
  refine writeAll_inv (P := fun u => ∃ m', u.members.find? key = some m' ∧
    m'.frozen = m.frozen ∧ ((∀ entry, .setOutcome key.1 key.2 entry ∉ ws) → m' = m))
    (fun u x hx hu => ?_) ⟨m, h, rfl, fun _ => rfl⟩
  obtain ⟨m', hfind, hf, hquiet⟩ := hu
  cases x with
  | addMember new =>
    refine ⟨m', ?_, hf, hquiet⟩
    change (u.members.insertNew new).find? key = _
    rw [Table.find?_insertNew, hfind]
    rfl
  | setOutcome planId memberKey entry =>
    have hnext : (u.write (.setOutcome planId memberKey entry)).members.find? key =
        some (if key = (planId, memberKey) then m'.record entry else m') := by
      rw [find?_setOutcome, hfind]
      rfl
    by_cases hkey : key = (planId, memberKey)
    · subst hkey
      rw [if_pos rfl] at hnext
      exact ⟨_, hnext, hf, fun hno => absurd hx (hno entry)⟩
    · rw [if_neg hkey] at hnext
      exact ⟨m', hnext, hf, hquiet⟩
  | _ => exact ⟨m', hfind, hf, hquiet⟩

theorem Later.writeAll (h : op.writes cfg s = .ok ws)
    (hk : KeepsTerminal s (s.writeAll ws)) : Later s (s.writeAll ws) where
  runs id run hrun := by
    obtain ⟨run', hrun', hf⟩ := runs_kept ws hrun
    refine ⟨run', hrun', hf, fun hok => ?_⟩
    obtain ⟨run'', hrun'', -, hstatus⟩ := succeeded_kept hk hrun hok
    cases hrun''.symm.trans hrun'
    exact hstatus
  evidence e he := (mem_evidence ws).mpr (Or.inl he)
  receipts id r hr := receipts_kept ws hr
  works id w hw := by
    obtain ⟨w', hw', hsame, hquiet⟩ := works_kept ws hw
    refine ⟨w', hw', hsame, fun hm => ?_⟩
    rw [hquiet fun manifest hset => ?_]
    obtain ⟨work, hwork, hnone⟩ := setManifest_of_wrote (wrote h hset)
    cases hwork.symm.trans hw
    rw [hnone] at hm
    cases hm
  plans plan hplan := plans_kept ws hplan
  members m hm := by
    obtain ⟨m', hm', hf, hquiet⟩ := member_kept ws (Table.find?_eq_some.mpr ⟨hm, rfl⟩)
    refine ⟨m', (Table.find?_eq_some.mp hm').1, hf, fun hout => ?_⟩
    rw [hquiet fun entry hset => ?_, hout]
    obtain ⟨m₀, hm₀, hne⟩ := setOutcome_of_wrote (wrote h hset)
    cases hm₀.symm.trans (Table.find?_eq_some.mpr ⟨hm, rfl⟩)
    exact hne hout
  back m' hm' hplan := by
    rcases members_from ws hm' with hold | ⟨m, hadd, hf⟩
    · exact hold
    · obtain ⟨plan, hmem, hid⟩ := hplan
      have hfresh := (addMember_of_wrote (wrote h hadd)).1
      rw [← Member.planId_of_frozen hf] at hfresh
      exact absurd hid (Table.find?_eq_none.mp hfresh plan hmem)

theorem Later.step (hk : KeepsTerminal s (step cfg op s)) :
    Later s (step cfg op s) := by
  rcases step_cases cfg op s with ⟨ws, h, ht⟩ | ht
  · rw [ht] at hk ⊢
    exact .writeAll h hk
  · rw [ht]
    exact .refl s

/-! ## Members that are delivered -/

theorem mem_delivers {run : IngestionRun} : s.delivers plan run = true ↔
    succeeded run.status = true ∧ ∃ p, run.deliveryPartId = some p ∧
      ∃ q ∈ s.members, q.planId = plan.planId ∧ q.partId = p := by
  unfold State.delivers
  rw [Bool.and_eq_true, Option.any_eq_true]
  simp only [List.any_eq_true, beq_iff_eq, State.mem_membersOf, and_assoc]

theorem coherent_of_eod {run : IngestionRun} (h : plan.schema ≠ .marketMinute) :
    s.coherent plan run = true := by
  unfold State.coherent
  rw [bne_iff_ne.mpr h]
  rfl

/-- A canonical row that counts for a member has evidence that counts too. -/
theorem evidence_of_canonical (hc : Credited s) {m : Member} (hm : m ∈ s.members)
    (hplan : m.planId = plan.planId) (heod : plan.schema ≠ .marketMinute)
    (h : s.canonicalKey plan m.memberKey = true) : s.evidenceKey plan m.memberKey = true := by
  unfold State.canonicalKey at h
  obtain ⟨c, hcm, h⟩ := List.any_eq_true.mp h
  simp only [Bool.and_eq_true, beq_iff_eq, Option.any_eq_true] at h
  obtain ⟨⟨⟨hschema, -⟩, hkey⟩, run, hrun, hdelivers, hcoherent⟩ := h
  obtain ⟨r, hr, hrun⟩ := Option.bind_eq_some_iff.mp hrun
  obtain ⟨-, p, hp, q, hq, hqplan, hqpart⟩ := mem_delivers.mp hdelivers
  have hmem := hc c hcm (by rw [hschema]; exact heod) r run p hr hrun hp
    ⟨m, hm, hkey.symm, q, hq, hqpart, hqplan.trans hplan.symm⟩
  unfold State.evidenceKey
  refine List.any_eq_true.mpr ⟨_, hmem, ?_⟩
  rw [Bool.and_eq_true, beq_iff_eq, Option.any_eq_true]
  exact ⟨hkey, run, hrun, by rw [hdelivers, hcoherent]; rfl⟩

theorem delivers_later (h : Later s t) {run run' : IngestionRun} (hf : run'.frozen = run.frozen)
    (hstatus : succeeded run.status = true → run'.status = run.status)
    (hd : s.delivers plan run = true) : t.delivers plan run' = true := by
  obtain ⟨hok, p, hp, q, hq, hqplan, hqpart⟩ := mem_delivers.mp hd
  obtain ⟨q', hq', hqf, -⟩ := h.members q hq
  refine mem_delivers.mpr ⟨by rw [hstatus hok]; exact hok, p, ?_, q', hq', ?_, ?_⟩
  · rw [IngestionRun.part_of_frozen hf, hp]
  · rw [Member.planId_of_frozen hqf, hqplan]
  · rw [Member.partId_of_frozen hqf, hqpart]

theorem evidenceKey_later (h : Later s t) {key : MemberKey} (heod : plan.schema ≠ .marketMinute)
    (hk : s.evidenceKey plan key = true) : t.evidenceKey plan key = true := by
  unfold State.evidenceKey at hk ⊢
  obtain ⟨e, he, hk⟩ := List.any_eq_true.mp hk
  simp only [Bool.and_eq_true, beq_iff_eq, Option.any_eq_true] at hk
  obtain ⟨hkey, run, hrun, hdelivers, -⟩ := hk
  obtain ⟨run', hrun', hf, hstatus⟩ := h.runs e.1 run hrun
  refine List.any_eq_true.mpr ⟨e, h.evidence he, ?_⟩
  simp only [Bool.and_eq_true, beq_iff_eq, Option.any_eq_true]
  exact ⟨hkey, run', hrun', delivers_later h hf hstatus hdelivers, coherent_of_eod heod⟩

/-- A historical repair needs a frozen manifest, which stays. -/
theorem repairWork_later (h : Later s t) {r : Uuid} {work : ProviderWork.Work}
    (hw : s.repairWork plan r = some work) : ∃ work', t.repairWork plan r = some work' ∧
      (work.manifest.isSome → work'.manifest = work.manifest) := by
  unfold State.repairWork at hw
  obtain ⟨run, hrun, hw⟩ := Option.bind_eq_some_iff.mp hw
  obtain ⟨receipt, hreceipt, hw⟩ := Option.bind_eq_some_iff.mp hw
  obtain ⟨work₀, hwork, hw⟩ := Option.bind_eq_some_iff.mp hw
  split at hw
  · rename_i hcond
    cases hw
    obtain ⟨run', hrun', hf, hstatus⟩ := h.runs r run hrun
    obtain ⟨work', hwork', hsame, hmanifest⟩ := h.works _ _ hwork
    refine ⟨work', ?_, hmanifest⟩
    have hsource : run'.source = run.source := congrArg (·.source) hf
    have hdataset : run'.datasetKey = run.datasetKey := congrArg (·.datasetKey) hf
    have hdate : run'.batchDataDate = run.batchDataDate := congrArg (·.batchDataDate) hf
    have hpayload := IngestionRun.payload_of_frozen hf
    have hversion : run'.schemaVersion = run.schemaVersion := congrArg (·.schemaVersion) hf
    have hkind : work'.kind = work.kind := congrArg (·.kind) hsame
    have hworkset : work'.datasetKey = work.datasetKey := congrArg (·.datasetKey) hsame
    have hworkdate : work'.tradeDate = work.tradeDate := congrArg (·.tradeDate) hsame
    have hok : succeeded run.status = true := by
      simp only [Bool.and_eq_true] at hcond
      exact hcond.1.1.1.2
    unfold State.repairWork
    rw [hrun', h.receipts r receipt hreceipt]
    simp only [Option.bind_eq_bind, Option.bind_some]
    rw [hwork', Option.bind_some, hsource, hdataset, hdate, hpayload, hversion, hstatus hok, hkind,
      hworkset, hworkdate, if_pos hcond]
  · cases hw

theorem repairedKey_later (h : Later s t) {key : MemberKey}
    (hk : s.repairedKey plan key = true) : t.repairedKey plan key = true := by
  unfold State.repairedKey at hk ⊢
  simp only [Bool.and_eq_true, List.any_eq_true, beq_iff_eq, Option.any_eq_true,
    State.mem_membersOf] at hk ⊢
  obtain ⟨hscope, m, ⟨hm, hplan⟩, ⟨hkey, hmapped⟩, e, he, hekey, work, hwork, hsymbol⟩ := hk
  obtain ⟨m', hm', hf, -⟩ := h.members m hm
  obtain ⟨work', hwork', hmanifest⟩ := repairWork_later h hwork
  have hstatus : m'.mappingStatus = m.mappingStatus := congrArg (·.mappingStatus) hf
  have hprovider : m'.providerSymbol = m.providerSymbol := congrArg (·.providerSymbol) hf
  refine ⟨hscope, m', ⟨hm', (Member.planId_of_frozen hf).trans hplan⟩,
    ⟨(Member.memberKey_of_frozen hf).trans hkey, hstatus.trans hmapped⟩, e, h.evidence he, hekey,
    work', hwork', ?_⟩
  have hsome : work.manifest.isSome := by
    cases hnone : work.manifest with
    | some manifest => rfl
    | none =>
      rw [hnone] at hsymbol
      cases hsymbol
  rw [hmanifest hsome, hprovider]
  exact hsymbol

theorem deliveredKey_later (hc : Credited s) (h : Later s t) {m : Member} (hm : m ∈ s.members)
    (hplan : m.planId = plan.planId) (heod : plan.schema ≠ .marketMinute)
    (hk : s.deliveredKey plan m.memberKey = true) : t.deliveredKey plan m.memberKey = true := by
  unfold State.deliveredKey at hk ⊢
  simp only [Bool.or_eq_true] at hk ⊢
  rcases hk with (hk | hk) | hk
  · exact Or.inl (Or.inr (evidenceKey_later h heod (evidence_of_canonical hc hm hplan heod hk)))
  · exact Or.inl (Or.inr (evidenceKey_later h heod hk))
  · exact Or.inr (repairedKey_later h hk)

/-! ## The reports -/

theorem memberState_data {m : Member} :
    s.memberState plan m = .data ↔ s.deliveredKey plan m.memberKey = true := by
  unfold State.memberState
  split
  · rename_i h
    exact ⟨fun _ => h, fun _ => rfl⟩
  · rename_i h
    refine ⟨fun hd => ?_, fun hd => absurd hd h⟩
    split at hd
    · cases hd
    · split at hd <;> cases hd

theorem memberState_noData {m : Member} : s.memberState plan m = .noData ↔
    s.deliveredKey plan m.memberKey = false ∧ m.outcome = some .noData := by
  unfold State.memberState
  split
  · rename_i h
    exact ⟨(fun hd => by cases hd), fun hd => absurd hd.1 (by rw [h]; decide)⟩
  · rename_i h
    split
    · rename_i hout
      exact ⟨fun _ => ⟨Bool.eq_false_iff.mpr h, beq_iff_eq.mp hout⟩, fun _ => rfl⟩
    · rename_i hout
      refine ⟨fun hd => ?_, fun hd => absurd (beq_iff_eq.mpr hd.2) hout⟩
      split at hd <;> cases hd

/-- `data` or `no_data`. -/
def Accounted (s : State) (plan : Plan) (m : Member) : Prop :=
  s.memberState plan m = .data ∨ s.memberState plan m = .noData

/-- A later report of a member that was accounted for. -/
theorem accounted_later (hc : Credited s) (h : Later s t) {m m' : Member} (hm : m ∈ s.members)
    (hplan : m.planId = plan.planId) (heod : plan.schema ≠ .marketMinute)
    (hf : m'.frozen = m.frozen) (hout : m.outcome = some .noData → m'.outcome = some .noData) :
    (s.memberState plan m = .data → t.memberState plan m' = .data) ∧
      (s.memberState plan m = .noData → Accounted t plan m') := by
  have hkey := Member.memberKey_of_frozen hf
  refine ⟨fun hd => ?_, fun hd => ?_⟩
  · rw [memberState_data] at hd ⊢
    rw [hkey]
    exact deliveredKey_later hc h hm hplan heod hd
  · obtain ⟨-, hno⟩ := memberState_noData.mp hd
    by_cases hdel : t.deliveredKey plan m'.memberKey = true
    · exact Or.inl (memberState_data.mpr hdel)
    · exact Or.inr (memberState_noData.mpr ⟨Bool.eq_false_iff.mpr hdel, hout hno⟩)

/-- A report is complete when every member is accounted for. -/
theorem countOf_complete : (s.countOf plan .data + s.countOf plan .noData =
    (s.membersOf plan.planId).length ↔ ∀ m ∈ s.membersOf plan.planId, Accounted s plan m) ∧
    (s.countOf plan .missing = 0 ∧ s.countOf plan .blocked = 0 ↔
      ∀ m ∈ s.membersOf plan.planId, Accounted s plan m) := by
  unfold State.countOf Accounted
  generalize s.membersOf plan.planId = members
  have hsum : members.countP (s.memberState plan · == .data) +
      members.countP (s.memberState plan · == .noData) =
      members.countP fun m => s.memberState plan m == .data || s.memberState plan m == .noData := by
    induction members with
    | nil => rfl
    | cons m members ih =>
      simp only [List.countP_cons]
      cases s.memberState plan m <;> simp <;> omega
  constructor
  · rw [hsum, List.countP_eq_length]
    simp only [Bool.or_eq_true, beq_iff_eq]
  · rw [List.countP_eq_zero, List.countP_eq_zero, ← forall₂_and]
    refine forall₂_congr fun m _ => ?_
    cases s.memberState plan m <;> simp

theorem complete_iff {now : Instant} {limit : Option Nat} :
    (s.reconcilePlan plan now limit).complete = true ↔
      ∀ m ∈ s.membersOf plan.planId, Accounted s plan m := by
  rw [← countOf_complete.1]
  exact beq_iff_eq

theorem evaluate_complete {now : Instant} {limit : Option Nat} {full : FullPlan} :
    (evaluate (s.reconcilePlan plan now limit) full).complete = true ↔
      ∀ m ∈ s.membersOf plan.planId, Accounted s plan m := by
  unfold evaluate
  simp only [Bool.and_eq_true, beq_iff_eq, and_assoc]
  constructor
  · exact fun h => countOf_complete.1.mp h.1.symm
  · exact fun h => ⟨(countOf_complete.1.mpr h).symm, countOf_complete.2.mpr h⟩

/-- What a run of the services may do: terminal runs keep their status, and rows stay in their
part. -/
def Progresses (cfg : Config) (s : State) (op : Op) : Prop :=
  KeepsTerminal s (step cfg op s) ∧ StaysInPart cfg s op

theorem progresses_inv (h : StepsIf (step cfg) (Progresses cfg) s t) (hs : Placed s ∧ Credited s) :
    Placed t ∧ Credited t := by
  refine h.inv (I := fun u => Placed u ∧ Credited u)
    (fun u op hu hop => ⟨hu.1.step hop.1, ?_⟩) hs
  rcases step_cases cfg op u with ⟨ws, hws, ht⟩ | ht
  · rw [ht]
    exact hu.2.writeAll hu.1 hws hop.2
  · rw [ht]
    exact hu.2

theorem progresses_later (h : StepsIf (step cfg) (Progresses cfg) s t) : Later s t :=
  h.rel (I := fun _ => True) .refl (fun _ _ _ => .trans) (fun _ _ _ _ => trivial)
    (fun _ _ _ hop => .step hop.1) trivial

/-- No member that was proved is demoted, and a complete plan stays complete. -/
theorem plan_progress (hs : StepsIf (step cfg) (Progresses cfg) .init s)
    (h : StepsIf (step cfg) (Progresses cfg) s t) (hplan : plan ∈ s.plans)
    (heod : plan.schema ≠ .marketMinute) :
    (∀ m ∈ s.membersOf plan.planId, ∃ m' ∈ t.membersOf plan.planId, m'.memberKey = m.memberKey ∧
      (s.memberState plan m = .data → t.memberState plan m' = .data) ∧
      (s.memberState plan m = .noData →
        t.memberState plan m' = .data ∨ t.memberState plan m' = .noData)) ∧
    ∀ now limit, (s.reconcilePlan plan now limit).complete = true → ∀ now' limit',
      (t.reconcilePlan plan now' limit').complete = true ∧
      ∀ full, (evaluate (t.reconcilePlan plan now' limit') full).complete = true := by
  obtain ⟨-, hc⟩ := progresses_inv hs ⟨.init, .init⟩
  have hl := progresses_later h
  refine ⟨fun m hm => ?_, fun now limit hcomplete now' limit' => ?_⟩
  · obtain ⟨hm, hid⟩ := State.mem_membersOf.mp hm
    obtain ⟨m', hm', hf, hout⟩ := hl.members m hm
    exact ⟨m', State.mem_membersOf.mpr ⟨hm', (Member.planId_of_frozen hf).trans hid⟩,
      Member.memberKey_of_frozen hf, accounted_later hc hl hm hid heod hf hout⟩
  · have hall : ∀ m' ∈ t.membersOf plan.planId, Accounted t plan m' := by
      intro m' hm'
      obtain ⟨hm', hid'⟩ := State.mem_membersOf.mp hm'
      obtain ⟨m₀, hm₀, hf₀⟩ := hl.back m' hm' ⟨plan, hplan, hid'.symm⟩
      obtain ⟨m₁, hm₁, hf₁, hout⟩ := hl.members m₀ hm₀
      have hkey : m₁.key = m'.key := congrArg (·.key) (hf₁.trans hf₀.symm)
      cases Table.eq_of_key hm₁ hm' hkey
      have hid₀ := (Member.planId_of_frozen hf₀).symm.trans hid'
      obtain ⟨hdata, hno⟩ := accounted_later hc hl hm₀ hid₀ heod hf₁ hout
      rcases complete_iff.mp hcomplete m₀ (State.mem_membersOf.mpr ⟨hm₀, hid₀⟩) with hst | hst
      · exact Or.inl (hdata hst)
      · exact hno hst
    exact ⟨complete_iff.mpr hall, fun _ => evaluate_complete.mpr hall⟩

/-! ## A run that is demoted, and one that is not -/

instance (s t : State) : Decidable (KeepsTerminal s t) :=
  decidable_of_iff (∀ run ∈ s.runs.rows, run.status.terminal = true →
    ∀ run' ∈ t.runs.rows, run'.runId = run.runId → run'.status = run.status) Iff.rfl

instance (s : State) (p : Uuid) (symbol : String) : Decidable (NamesMember s p symbol) :=
  decidable_of_iff (∃ m ∈ s.members.rows, m.memberKey = symbol ∧
    ∃ q ∈ s.members.rows, q.partId = p ∧ q.planId = m.planId) Iff.rfl

/-- `StaysInPart` of one run, row by row. -/
def RowsStay (cfg : Config) (s : State) (verdict : Nat → Verdict) (run : IngestionRun) : Prop :=
  ∀ p ∈ run.deliveryPartId, run.payload.schema = .marketEod → ∀ row ∈ judged cfg run verdict,
    row.2 ≠ .blocked → NamesMember s p (resolveInstrument cfg run row.1 s).1.symbol →
    (resolveInstrument cfg run row.1 s).1.symbol ∈ s.expected p

theorem staysInPart_complete {runId : Uuid} {ncfg : Canonical.NormalizerConfig} {now : Instant}
    {verdict : Nat → Verdict} : StaysInPart cfg s (.complete runId ncfg now verdict) ↔
      ∀ run ∈ s.runs.find? runId, RowsStay cfg s verdict run := by
  constructor
  · intro h run hrun p hp hschema row hrow hv
    exact h run hrun p hp hschema _ ⟨row, hrow, hv, rfl⟩
  · rintro h run hrun p hp hschema instrument ⟨row, hrow, hv, rfl⟩
    exact h run hrun p hp hschema row hrow hv

instance (cfg : Config) (s : State) (verdict : Nat → Verdict) (run : IngestionRun) :
    Decidable (RowsStay cfg s verdict run) := by
  unfold RowsStay
  infer_instance

instance (cfg : Config) (s : State) : (op : Op) → Decidable (StaysInPart cfg s op)
  | .complete .. => decidable_of_iff' _ staysInPart_complete
  | .createPlan .. | .deliver .. | .replay .. | .rerun .. | .start .. | .scheduleRetry ..
  | .markPermanentFailure .. | .recordOutcome .. | .applyRepair .. | .enqueueWork ..
  | .freezeManifest .. => isTrue trivial

instance (cfg : Config) (s : State) (op : Op) : Decidable (Progresses cfg s op) :=
  inferInstanceAs (Decidable (_ ∧ _))

def sampleConfig : Config := ⟨id, id, fun _ => ("US", "equity")⟩

def samplePlan (planId : Uuid) (date : Date) (profile : Profile) : Plan :=
  ⟨planId, "us_equity_eod", .twelveData, date, profile, 0⟩

def sampleMember (key symbol : String) : FrozenMember := ⟨key, symbol, none, .mapped⟩

/-- Two parts: the last member alone in the second. -/
def sampleMembers : List FrozenMember :=
  [sampleMember "A000" "W", sampleMember "A001" "Y"] ++
  (List.range 48).map (fun i => sampleMember ("B" ++ toString i) ("P" ++ toString i)) ++
  [sampleMember "C000" "X"]

/-- A part's delivery of one row. -/
def sampleDelivery (runId part : Uuid) (symbol source : String) (date : Date) : Delivery where
  run := {
    runId, datasetKey := "us_equity_eod", source := .twelveData, deliveryPartId := none
    schemaVersion := 1, batchDataDate := some date, deliveryMode := none, snapshotId := none
    dailyUpdateId := none, sequence := none, sequenceCount := none, isRerun := false
    status := .queued, totalRecords := 0, successRecords := 0, failedRecords := 0, createdAt := 0
    payload := ⟨.marketEod, [.eod symbol (some source) date], by simp [PayloadRow.schema]⟩ }
  workItem := .part part
  targetDataDate := some date
  elapsed := .ok ()
  currency := .ok ()
  claimed := none

def sampleComplete (runId : Uuid) (now : Instant) : Op :=
  .complete runId ⟨id, .other, .instant now⟩ now fun _ => .write

/-- A provider symbol moves from one member to another between two days. -/
def sampleMoved : List Op := [
  .createPlan (samplePlan 1 0 .pilot) (· + 10) [sampleMember "A001" "X"],
  .deliver (sampleDelivery 100 10 "A001" "X" 0), sampleComplete 100 1,
  .createPlan (samplePlan 2 1 .fullMarket) (· + 20) sampleMembers,
  .createPlan (samplePlan 3 1 .pilot) (· + 30) [sampleMember "A000" "W", sampleMember "A001" "Y"],
  .deliver (sampleDelivery 101 21 "C000" "X" 1), sampleComplete 101 2]

/-- The full plan's own delivery of the member, in its part. -/
def sampleOwn : List Op := [
  .createPlan (samplePlan 2 1 .fullMarket) (· + 20) sampleMembers,
  .createPlan (samplePlan 3 1 .pilot) (· + 30) [sampleMember "A000" "W", sampleMember "A001" "Y"],
  .deliver (sampleDelivery 101 20 "A001" "Y" 1), sampleComplete 101 2]

/-- The pilot plan delivers the member again. -/
def samplePilot : List Op := [.deliver (sampleDelivery 102 30 "A001" "Y" 1), sampleComplete 102 3]

/-- A row of one part is written to the slot of another part's member, which counts as data
until another plan's delivery takes the slot. -/
theorem plan_demoted : ∃ s t, ∃ m ∈ s.membersOf 2,
    StepsIf (step sampleConfig) (fun u op => KeepsTerminal u (step sampleConfig op u)) .init s ∧
    StepsIf (step sampleConfig) (fun u op => KeepsTerminal u (step sampleConfig op u)) s t ∧
    samplePlan 2 1 .fullMarket ∈ s.plans ∧ m ∈ t.membersOf 2 ∧
    s.memberState (samplePlan 2 1 .fullMarket) m = .data ∧
    t.memberState (samplePlan 2 1 .fullMarket) m = .missing := by
  -- One evaluation of the two runs gives every fact about them.
  have hruns : Admitted (step sampleConfig)
        (fun u op => KeepsTerminal u (step sampleConfig op u)) sampleMoved .init ∧
      Admitted (step sampleConfig) (fun u op => KeepsTerminal u (step sampleConfig op u)) samplePilot
        (runAll (step sampleConfig) sampleMoved .init) ∧
      samplePlan 2 1 .fullMarket ∈ (runAll (step sampleConfig) sampleMoved .init).plans.rows ∧
      newMember 2 (· + 20) 1 (sampleMember "A001" "Y") ∈
        (runAll (step sampleConfig) sampleMoved .init).membersOf 2 ∧
      newMember 2 (· + 20) 1 (sampleMember "A001" "Y") ∈ (runAll (step sampleConfig) samplePilot
        (runAll (step sampleConfig) sampleMoved .init)).membersOf 2 ∧
      (runAll (step sampleConfig) sampleMoved .init).memberState (samplePlan 2 1 .fullMarket)
        (newMember 2 (· + 20) 1 (sampleMember "A001" "Y")) = .data ∧
      (runAll (step sampleConfig) samplePilot
        (runAll (step sampleConfig) sampleMoved .init)).memberState (samplePlan 2 1 .fullMarket)
        (newMember 2 (· + 20) 1 (sampleMember "A001" "Y")) = .missing := by
    decide +kernel
  obtain ⟨hmoved, hpilot, hplan, hs, ht, hdata, hmissing⟩ := hruns
  exact ⟨_, _, _, hs, runAll_steps _ _ hmoved, runAll_steps _ _ hpilot, Table.mem_def.mpr hplan, ht,
    hdata, hmissing⟩

/-- Sent in its own part, the member stays. -/
theorem plan_progress_sample :
    ∃ m ∈ (runAll (step sampleConfig) sampleOwn .init).membersOf 2,
      (runAll (step sampleConfig) sampleOwn .init).memberState (samplePlan 2 1 .fullMarket) m =
        .data ∧
      ∃ m' ∈ (runAll (step sampleConfig) samplePilot
          (runAll (step sampleConfig) sampleOwn .init)).membersOf 2,
        m'.memberKey = m.memberKey ∧
        (runAll (step sampleConfig) samplePilot
          (runAll (step sampleConfig) sampleOwn .init)).memberState (samplePlan 2 1 .fullMarket) m' =
          .data := by
  have hruns : Admitted (step sampleConfig) (Progresses sampleConfig) sampleOwn .init ∧
      Admitted (step sampleConfig) (Progresses sampleConfig) samplePilot
        (runAll (step sampleConfig) sampleOwn .init) ∧
      samplePlan 2 1 .fullMarket ∈ (runAll (step sampleConfig) sampleOwn .init).plans.rows ∧
      ∃ m ∈ (runAll (step sampleConfig) sampleOwn .init).membersOf 2,
        (runAll (step sampleConfig) sampleOwn .init).memberState (samplePlan 2 1 .fullMarket) m =
          .data := by
    decide +kernel
  obtain ⟨hown, hpilot, hplan, m, hm, hstate⟩ := hruns
  obtain ⟨m', hm', hkey, hdata, -⟩ := (plan_progress (runAll_steps _ _ hown)
    (runAll_steps _ _ hpilot) (Table.mem_def.mpr hplan) (by decide)).1 m hm
  exact ⟨m, hm, hstate, m', hm', hkey, hdata hstate⟩

end FinDB.Plans
