import FinDB.Plans.Writes

/-! # Evidence of canonical rows

A normalization writes canonical rows and the evidence of its part in one
transaction. Where no run of a part reaches an instrument of another part, every
canonical row that counts for a member has evidence of the run that wrote it. -/
namespace FinDB.Plans
open FinDB.Lib

variable {cfg : Config} {s t : State} {ws : List Write}

/-! ## Writing lists -/

theorem writeAll_append (s : State) (ws ws' : List Write) :
    s.writeAll (ws ++ ws') = (s.writeAll ws).writeAll ws' := List.foldl_append ..

/-- What every write of a list keeps. -/
theorem writeAll_inv {P : State → Prop} {ws : List Write}
    (h : ∀ u w, w ∈ ws → P u → P (u.write w)) (h0 : P s) : P (s.writeAll ws) := by
  induction ws generalizing s with
  | nil => exact h0
  | cons w ws ih =>
    exact ih (fun u w' hw' => h u w' (List.mem_cons_of_mem _ hw')) (h s w List.mem_cons_self h0)

/-- What an operation leaves: its writes, or the state as it was. -/
theorem step_cases (cfg : Config) (op : Op) (s : State) :
    (∃ ws, op.writes cfg s = .ok ws ∧ step cfg op s = s.writeAll ws) ∨ step cfg op s = s := by
  unfold step
  cases op.writes cfg s with
  | ok ws => exact Or.inl ⟨ws, rfl, rfl⟩
  | error e => exact Or.inr rfl

/-! ## Rows that stay -/

/-- A run up to its status and counters. -/
def IngestionRun.frozen (run : IngestionRun) : IngestionRun := run.set .queued (some ⟨0, 0, 0⟩)

@[simp] theorem IngestionRun.set_frozen (run : IngestionRun) (status : RunStatus)
    (counts : Option RunCounts) : (run.set status counts).frozen = run.frozen := by
  cases counts <;> rfl

theorem IngestionRun.runId_of_frozen {run run' : IngestionRun} (h : run'.frozen = run.frozen) :
    run'.runId = run.runId := by
  have hid := congrArg IngestionRun.runId h
  rwa [IngestionRun.frozen, IngestionRun.set_runId, IngestionRun.frozen,
    IngestionRun.set_runId] at hid

theorem IngestionRun.part_of_frozen {run run' : IngestionRun} (h : run'.frozen = run.frozen) :
    run'.deliveryPartId = run.deliveryPartId := congrArg (·.deliveryPartId) h

theorem IngestionRun.payload_of_frozen {run run' : IngestionRun} (h : run'.frozen = run.frozen) :
    run'.payload = run.payload := congrArg (·.payload) h

/-- A member up to its outcome. -/
def Member.frozen (m : Member) : Member :=
  { m with
    outcome := none, outcomeReason := none, outcomeEvidence := none, outcomeHistory := []
    outcomeAt := none }

theorem Member.planId_of_frozen {m m' : Member} (h : m'.frozen = m.frozen) : m'.planId = m.planId :=
  congrArg (·.planId) h

theorem Member.partId_of_frozen {m m' : Member} (h : m'.frozen = m.frozen) : m'.partId = m.partId :=
  congrArg (·.partId) h

theorem Member.memberKey_of_frozen {m m' : Member} (h : m'.frozen = m.frozen) :
    m'.memberKey = m.memberKey := congrArg (·.memberKey) h

theorem find?_setRun (u : State) (runId : Uuid) (status : RunStatus) (counts : Option RunCounts)
    (id : Uuid) : (u.write (.setRun runId status counts)).runs.find? id =
      (u.runs.find? id).map fun run => if id = runId then run.set status counts else run :=
  @Table.find?_modify _ _ _ _ u.runs runId id (·.set status counts) fun _ => IngestionRun.set_runId ..

theorem find?_setOutcome (u : State) (planId : Uuid) (key : MemberKey) (entry : OutcomeEntry)
    (k : Uuid × MemberKey) : (u.write (.setOutcome planId key entry)).members.find? k =
      (u.members.find? k).map fun m => if k = (planId, key) then m.record entry else m :=
  @Table.find?_modify _ _ _ _ u.members (planId, key) k (·.record entry) fun _ => rfl

/-- A run stays under its id. -/
theorem runs_kept {id : Uuid} {run : IngestionRun} (ws : List Write)
    (h : s.runs.find? id = some run) :
    ∃ run', (s.writeAll ws).runs.find? id = some run' ∧ run'.frozen = run.frozen := by
  refine writeAll_inv (P := fun u => ∃ run', u.runs.find? id = some run' ∧
    run'.frozen = run.frozen) (fun u w _ hu => ?_) ⟨run, h, rfl⟩
  obtain ⟨run', hfind, hrun'⟩ := hu
  cases w with
  | addRun new =>
    refine ⟨run', ?_, hrun'⟩
    change (u.runs.insertNew new).find? id = _
    rw [Table.find?_insertNew, hfind]
    rfl
  | setRun runId status counts =>
    refine ⟨if id = runId then run'.set status counts else run', ?_, ?_⟩
    · rw [find?_setRun, hfind]
      rfl
    · split
      · rw [IngestionRun.set_frozen, hrun']
      · exact hrun'
  | _ => exact ⟨run', hfind, hrun'⟩

/-- A run was there, or is added. -/
theorem runs_from {run' : IngestionRun} (ws : List Write) (h : run' ∈ (s.writeAll ws).runs) :
    (∃ run ∈ s.runs, run'.frozen = run.frozen) ∨
      ∃ run, .addRun run ∈ ws ∧ run'.frozen = run.frozen := by
  refine writeAll_inv (s := s) (P := fun u => ∀ run' ∈ u.runs,
    (∃ run ∈ s.runs, run'.frozen = run.frozen) ∨
      ∃ run, .addRun run ∈ ws ∧ run'.frozen = run.frozen)
    (fun u w hw hu run' hrun' => ?_) (fun run hrun => Or.inl ⟨run, hrun, rfl⟩) run' h
  cases w with
  | addRun new =>
    rcases Table.mem_insertNew.mp hrun' with hrun' | ⟨rfl, -⟩
    · exact hu run' hrun'
    · exact Or.inr ⟨run', hw, rfl⟩
  | setRun runId status counts =>
    have hrun' : run' ∈ u.runs.modify runId (·.set status counts)
      fun _ => IngestionRun.set_runId .. := hrun'
    rcases Table.mem_modify.mp hrun' with ⟨hrun', -⟩ | ⟨q, hq, -, rfl⟩
    · exact hu run' hrun'
    · rw [IngestionRun.set_frozen]
      exact hu q hq
  | _ => exact hu run' hrun'

theorem plans_kept {plan : Plan} (ws : List Write) (h : plan ∈ s.plans) :
    plan ∈ (s.writeAll ws).plans := by
  refine writeAll_inv (P := fun u => plan ∈ u.plans) (fun u w _ hu => ?_) h
  cases w with
  | addPlan new => exact Table.mem_insertNew.mpr (Or.inl hu)
  | _ => exact hu

/-- A plan that is added is there. -/
theorem plans_added {plan : Plan} (h : .addPlan plan ∈ ws) :
    ∃ plan' ∈ (s.writeAll ws).plans, plan'.planId = plan.planId := by
  obtain ⟨pre, post, rfl⟩ := List.append_of_mem h
  rw [writeAll_append]
  change ∃ plan' ∈ (((s.writeAll pre).write (.addPlan plan)).writeAll post).plans, _
  cases hfind : (s.writeAll pre).plans.find? plan.planId with
  | some old =>
    obtain ⟨hold, hid⟩ := Table.find?_eq_some.mp hfind
    exact ⟨old, plans_kept post (Table.mem_insertNew.mpr (Or.inl hold)), hid⟩
  | none => exact ⟨plan, plans_kept post (Table.mem_insertNew.mpr (Or.inr ⟨rfl, hfind⟩)), rfl⟩

theorem parts_from {part : Part} (ws : List Write) (h : part ∈ (s.writeAll ws).parts) :
    part ∈ s.parts ∨ .addPart part ∈ ws := by
  refine writeAll_inv (s := s) (P := fun u => ∀ part ∈ u.parts, part ∈ s.parts ∨ .addPart part ∈ ws)
    (fun u w hw hu part hpart => ?_) (fun part hpart => Or.inl hpart) part h
  cases w with
  | addPart new =>
    rcases Table.mem_insertNew.mp hpart with hpart | ⟨rfl, -⟩
    · exact hu part hpart
    · exact Or.inr hw
  | _ => exact hu part hpart

theorem parts_kept {part : Part} (ws : List Write) (h : part ∈ s.parts) :
    part ∈ (s.writeAll ws).parts := by
  refine writeAll_inv (P := fun u => part ∈ u.parts) (fun u w _ hu => ?_) h
  cases w with
  | addPart new => exact Table.mem_insertNew.mpr (Or.inl hu)
  | _ => exact hu

theorem members_from {m' : Member} (ws : List Write) (h : m' ∈ (s.writeAll ws).members) :
    (∃ m ∈ s.members, m'.frozen = m.frozen) ∨ ∃ m, .addMember m ∈ ws ∧ m'.frozen = m.frozen := by
  refine writeAll_inv (s := s) (P := fun u => ∀ m' ∈ u.members,
    (∃ m ∈ s.members, m'.frozen = m.frozen) ∨ ∃ m, .addMember m ∈ ws ∧ m'.frozen = m.frozen)
    (fun u w hw hu m' hm' => ?_) (fun m hm => Or.inl ⟨m, hm, rfl⟩) m' h
  cases w with
  | addMember new =>
    rcases Table.mem_insertNew.mp hm' with hm' | ⟨rfl, -⟩
    · exact hu m' hm'
    · exact Or.inr ⟨m', hw, rfl⟩
  | setOutcome planId key entry =>
    have hm' : m' ∈ u.members.modify (planId, key) (·.record entry) := hm'
    rcases Table.mem_modify.mp hm' with ⟨hm', -⟩ | ⟨q, hq, -, rfl⟩
    · exact hu m' hm'
    · exact hu q hq
  | _ => exact hu m' hm'

theorem members_kept {m : Member} (ws : List Write) (h : m ∈ s.members) :
    ∃ m' ∈ (s.writeAll ws).members, m'.frozen = m.frozen := by
  refine writeAll_inv (P := fun u => ∃ m' ∈ u.members, m'.frozen = m.frozen)
    (fun u w _ hu => ?_) ⟨m, h, rfl⟩
  obtain ⟨m', hm', hfrozen⟩ := hu
  cases w with
  | addMember new => exact ⟨m', Table.mem_insertNew.mpr (Or.inl hm'), hfrozen⟩
  | setOutcome planId key entry =>
    have hrow {m : Member} (h : (m ∈ u.members ∧ m.key ≠ (planId, key)) ∨
        ∃ q ∈ u.members, q.key = (planId, key) ∧ m = q.record entry) :
        m ∈ u.members.modify (planId, key) (·.record entry) := Table.mem_modify.mpr h
    by_cases hkey : m'.key = (planId, key)
    · exact ⟨m'.record entry, hrow (Or.inr ⟨m', hm', hkey, rfl⟩), hfrozen⟩
    · exact ⟨m', hrow (Or.inl ⟨hm', hkey⟩), hfrozen⟩
  | _ => exact ⟨m', hm', hfrozen⟩

theorem canonical_from {c : CanonicalRow} (ws : List Write) (h : c ∈ (s.writeAll ws).canonical) :
    c ∈ s.canonical ∨ .putCanonical c ∈ ws := by
  refine writeAll_inv (s := s) (P := fun u => ∀ c ∈ u.canonical, c ∈ s.canonical ∨
    .putCanonical c ∈ ws) (fun u w hw hu c hc => ?_) (fun c hc => Or.inl hc) c h
  cases w with
  | putCanonical new =>
    rcases Table.mem_upsert.mp hc with ⟨hc, -⟩ | rfl
    · exact hu c hc
    · refine Or.inr ?_
      cases hfind : u.canonical.find? new.slot with
      | none => exact hw
      | some old =>
        have hslot : old.slot = new.slot := (Table.find?_eq_some.mp hfind).2
        have hnew : ({ old with row := new.row } : CanonicalRow) = new := by rw [hslot]
        rw [Option.elim_some, hnew]
        exact hw
  | _ => exact hu c hc

theorem mem_evidence {e : Uuid × MemberKey} (ws : List Write) :
    e ∈ (s.writeAll ws).evidence ↔ e ∈ s.evidence ∨ .addEvidence e.1 e.2 ∈ ws := by
  induction ws generalizing s with
  | nil => simp [State.writeAll]
  | cons w ws ih =>
    change e ∈ ((s.write w).writeAll ws).evidence ↔ _
    rw [ih, List.mem_cons]
    cases w with
    | addEvidence runId key =>
      change e ∈ s.evidence.insert (runId, key) ∨ _ ↔ _
      rw [List.mem_insert_iff, Write.addEvidence.injEq]
      constructor
      · rintro ((rfl | h) | h)
        · exact Or.inr (Or.inl ⟨rfl, rfl⟩)
        · exact Or.inl h
        · exact Or.inr (Or.inr h)
      · rintro (h | ⟨rfl, rfl⟩ | h)
        · exact Or.inl (Or.inr h)
        · exact Or.inl (Or.inl rfl)
        · exact Or.inr h
    | _ =>
      refine or_congr_right ⟨Or.inr, ?_⟩
      rintro (h | h)
      · cases h
      · exact h

/-! ## What a normalization writes -/

/-- An instrument a row of the run resolves to, one that is not blocked. -/
def Reaches (cfg : Config) (s : State) (run : IngestionRun) (rows : List (PayloadRow × Verdict))
    (instrument : Instrument) : Prop :=
  ∃ row ∈ rows, row.2 ≠ .blocked ∧ (resolveInstrument cfg run row.1 s).1 = instrument

/-- A canonical row the run writes. -/
def Writes (cfg : Config) (s : State) (run : IngestionRun) (rows : List (PayloadRow × Verdict))
    (c : CanonicalRow) : Prop :=
  c.runId = some run.runId ∧ ∃ row ∈ rows, ∃ instrument, c.slot = slotOf instrument row.1 ∧
    Reaches cfg s run rows instrument ∧
    (identifierOf cfg run.source row.1 = none → instrument = ownInstrument cfg run.datasetKey row.1)

/-- A normalizer part of the way through its rows. -/
structure Normalizing (cfg : Config) (s : State) (run : IngestionRun)
    (rows : List (PayloadRow × Verdict)) (p : Progress) : Prop where
  state : p.state = s.writeAll p.writes
  writes : ∀ w ∈ p.writes, (∃ i, w = .addIdentifier i) ∨
    ∃ c, w = .putCanonical c ∧ Writes cfg s run rows c
  known : ∀ k i, s.identifiers.find? k = some i → p.state.identifiers.find? k = some i
  identifiers : ∀ i ∈ p.state.identifiers,
    i ∈ s.identifiers ∨ Reaches cfg s run rows i.instrument

variable {run : IngestionRun} {rows : List (PayloadRow × Verdict)} {p : Progress}

/-- Without an identifier a row names its own instrument. -/
theorem resolveInstrument_own {row : PayloadRow} (h : identifierOf cfg run.source row = none) :
    resolveInstrument cfg run row s = (ownInstrument cfg run.datasetKey row, none) := by
  unfold resolveInstrument
  rw [h]

/-- Identifiers that are not known yet leave the row its own instrument. -/
theorem resolveInstrument_unknown {row : PayloadRow} {id : String × String}
    (hid : identifierOf cfg run.source row = some id) (h : s.identifiers.find? id = none) :
    resolveInstrument cfg run row s = (ownInstrument cfg run.datasetKey row,
      some ⟨id.1, id.2, ownInstrument cfg run.datasetKey row⟩) := by
  unfold resolveInstrument
  rw [hid]
  dsimp only
  rw [h]
  rfl

/-- The instrument of a known identifier, or the row's own. -/
theorem resolveInstrument_known {row : PayloadRow} {id : String × String} {known : Identifier}
    (hid : identifierOf cfg run.source row = some id) (h : s.identifiers.find? id = some known) :
    (resolveInstrument cfg run row s).1 = known.instrument ∨
      (resolveInstrument cfg run row s).1 = ownInstrument cfg run.datasetKey row := by
  unfold resolveInstrument
  rw [hid]
  dsimp only
  rw [h]
  dsimp only [Option.map_some]
  split
  · exact Or.inl rfl
  · exact Or.inr rfl

/-- What a row adds is its own instrument. -/
theorem resolveInstrument_new {row : PayloadRow} {i : Identifier}
    (h : i ∈ (resolveInstrument cfg run row s).2) :
    i.instrument = (resolveInstrument cfg run row s).1 := by
  unfold resolveInstrument at h ⊢
  cases hid : identifierOf cfg run.source row with
  | none =>
    rw [hid] at h
    cases h
  | some id =>
    rw [hid] at h
    dsimp only at h ⊢
    cases hfind : (s.identifiers.find? id).map (·.instrument) with
    | none =>
      rw [hfind] at h
      cases h
      rfl
    | some known =>
      rw [hfind] at h
      dsimp only at h ⊢
      split at h
      · cases h
      · rename_i hscope
        cases h
        rw [if_neg hscope]

/-- What a row resolves to half way was reached before the first row. -/
theorem Normalizing.reaches (h : Normalizing cfg s run rows p) {row : PayloadRow × Verdict}
    (hrow : row ∈ rows) (hv : row.2 ≠ .blocked) :
    Reaches cfg s run rows (resolveInstrument cfg run row.1 p.state).1 := by
  cases hid : identifierOf cfg run.source row.1 with
  | none => exact ⟨row, hrow, hv, by rw [resolveInstrument_own hid, resolveInstrument_own hid]⟩
  | some id =>
    cases hs : s.identifiers.find? id with
    | some known =>
      refine ⟨row, hrow, hv, ?_⟩
      unfold resolveInstrument
      rw [hid]
      dsimp only
      rw [hs, h.known id known hs]
    | none =>
      have hown : (resolveInstrument cfg run row.1 s).1 =
          ownInstrument cfg run.datasetKey row.1 := by rw [resolveInstrument_unknown hid hs]
      cases hp : p.state.identifiers.find? id with
      | none => exact ⟨row, hrow, hv, by rw [hown, resolveInstrument_unknown hid hp]⟩
      | some known =>
        rcases resolveInstrument_known hid hp with hr | hr
        · rw [hr]
          obtain ⟨hmem, hkey⟩ := Table.find?_eq_some.mp hp
          rcases h.identifiers known hmem with hknown | hreach
          · exact absurd hkey (Table.find?_eq_none.mp hs known hknown)
          · exact hreach
        · exact ⟨row, hrow, hv, by rw [hr, hown]⟩

theorem Normalizing.put_identifier (h : Normalizing cfg s run rows p) {i : Identifier}
    (hi : Reaches cfg s run rows i.instrument) :
    Normalizing cfg s run rows (p.put (.addIdentifier i)) where
  state := by
    change p.state.write (.addIdentifier i) = s.writeAll (p.writes ++ [.addIdentifier i])
    rw [writeAll_append, ← h.state]
    rfl
  writes w hw := by
    rcases List.mem_append.mp hw with hw | hw
    · exact h.writes w hw
    · exact Or.inl ⟨i, List.mem_singleton.mp hw⟩
  known k j hj := by
    change (p.state.identifiers.insertNew i).find? k = some j
    rw [Table.find?_insertNew, h.known k j hj]
    rfl
  identifiers j hj := by
    rcases Table.mem_insertNew.mp hj with hj | ⟨rfl, -⟩
    · exact h.identifiers j hj
    · exact Or.inr hi

theorem Normalizing.put_canonical (h : Normalizing cfg s run rows p) {c : CanonicalRow}
    (hc : Writes cfg s run rows c) : Normalizing cfg s run rows (p.put (.putCanonical c)) where
  state := by
    change p.state.write (.putCanonical c) = s.writeAll (p.writes ++ [.putCanonical c])
    rw [writeAll_append, ← h.state]
    rfl
  writes w hw := by
    rcases List.mem_append.mp hw with hw | hw
    · exact h.writes w hw
    · exact Or.inr ⟨c, List.mem_singleton.mp hw, hc⟩
  known := h.known
  identifiers := h.identifiers

theorem Normalizing.count (h : Normalizing cfg s run rows p) (success failed : Nat) :
    Normalizing cfg s run rows { p with success, failed } :=
  ⟨h.state, h.writes, h.known, h.identifiers⟩

/-- A row the guard lets through carries the run. -/
theorem upsert_runId {stored : Option (Canonical.Row Unit Unit)} {excluded : Canonical.Row Unit Unit}
    (h : (Canonical.upsert stored excluded).2 = true) :
    (Canonical.upsert stored excluded).1.written.runId = excluded.written.runId := by
  unfold Canonical.upsert at h ⊢
  cases stored with
  | none => rfl
  | some row =>
    dsimp only at h ⊢
    split at h
    · rename_i hwins
      rw [if_pos hwins]
    · cases h

theorem Normalizing.row (h : Normalizing cfg s run rows p) {ncfg : Canonical.NormalizerConfig}
    {now : Instant} {row : PayloadRow × Verdict} (hrow : row ∈ rows) :
    Normalizing cfg s run rows (normalizeRow cfg run ncfg now p row) := by
  unfold normalizeRow
  split
  · exact h.count _ _
  · rename_i hv
    have hreach := h.reaches hrow hv
    have hnew (i : Identifier) (hi : i ∈ (resolveInstrument cfg run row.1 p.state).2) :
        Reaches cfg s run rows i.instrument := by
      rw [resolveInstrument_new hi]
      exact hreach
    have hown : identifierOf cfg run.source row.1 = none →
        (resolveInstrument cfg run row.1 p.state).1 = ownInstrument cfg run.datasetKey row.1 :=
      fun hid => by rw [resolveInstrument_own hid]
    generalize resolveInstrument cfg run row.1 p.state = resolved at hreach hnew hown
    dsimp only
    have hid : Normalizing cfg s run rows
        (resolved.2.elim p fun i => p.put (.addIdentifier i)) := by
      cases hr : resolved.2 with
      | none => exact h
      | some i => exact h.put_identifier (hnew i hr)
    generalize resolved.2.elim p (fun i => p.put (.addIdentifier i)) = q at hid
    split
    · exact hid.count _ _
    · split
      · rename_i happlied
        refine Normalizing.count (hid.put_canonical ?_) _ _
        exact ⟨upsert_runId happlied, row, hrow, resolved.1, rfl, hreach, hown⟩
      · exact hid

/-- What a whole normalization writes. -/
theorem Normalizing.all (cfg : Config) (s : State) (run : IngestionRun)
    (rows : List (PayloadRow × Verdict)) (ncfg : Canonical.NormalizerConfig) (now : Instant) :
    Normalizing cfg s run rows (rows.foldl (normalizeRow cfg run ncfg now) ⟨s, [], 0, 0⟩) := by
  have hfold (todo : List (PayloadRow × Verdict)) : ∀ p, todo ⊆ rows →
      Normalizing cfg s run rows p →
      Normalizing cfg s run rows (todo.foldl (normalizeRow cfg run ncfg now) p) := by
    induction todo with
    | nil => exact fun _ _ h => h
    | cons row todo ih =>
      intro p hsub h
      exact ih _ (fun x hx => hsub (List.mem_cons_of_mem _ hx)) (h.row (hsub List.mem_cons_self))
  refine hfold rows ⟨s, [], 0, 0⟩ (List.Subset.refl _) ?_
  exact ⟨rfl, (fun _ hw => by cases hw), (fun _ _ hi => hi), fun _ hi => Or.inl hi⟩

/-! ## What an operation writes -/

/-- A plan that is created, with its parts and members. -/
structure Creates (s : State) (plan : Plan) (ws : List Write) : Prop where
  fresh : s.plans.find? plan.planId = none
  mem : .addPlan plan ∈ ws
  writes : ∀ w ∈ ws, w = .addPlan plan ∨
    (∃ part, w = .addPart part ∧ part.planId = plan.planId ∧ s.parts.find? part.partId = none) ∨
    ∃ m, w = .addMember m ∧ m.planId = plan.planId ∧ s.parts.find? m.partId = none

theorem createPlan_ok {plan : Plan} {partId : Nat → Uuid} {frozen : List FrozenMember}
    (h : createPlan s plan partId frozen = .ok ws) : ws = [] ∨ Creates s plan ws := by
  unfold createPlan at h
  dsimp only at h
  split at h
  · exact Or.inl (ok_pure h)
  obtain ⟨_, -, h⟩ := ok_bind h
  obtain ⟨_, hids, h⟩ := ok_bind h
  obtain ⟨_, -, h⟩ := ok_bind h
  have hids := ensure_ok.mp hids
  rw [Bool.and_eq_true, Bool.and_eq_true, Option.isNone_iff_eq_none, List.all_eq_true] at hids
  have hfree (i : Nat) (hi : i < (frozen.length + partSize - 1) / partSize) :
      s.parts.find? (partId i) = none :=
    Option.isNone_iff_eq_none.mp (hids.2 _ (List.mem_map_of_mem (List.mem_range.mpr hi)))
  refine Or.inr ⟨hids.1.1, by rw [ok_pure h]; exact List.mem_cons_self, ?_⟩
  rw [ok_pure h]
  intro w hw
  rw [List.cons_append, List.mem_cons, List.mem_append] at hw
  rcases hw with rfl | hw | hw
  · exact Or.inl rfl
  · obtain ⟨i, hi, rfl⟩ := List.mem_mapIdx.mp hw
    refine Or.inr (Or.inl ⟨_, rfl, rfl, ?_⟩)
    rw [List.length_map, List.length_range] at hi
    simpa using hfree i hi
  · obtain ⟨m, hm, rfl⟩ := List.mem_map.mp hw
    obtain ⟨i, hi, rfl⟩ := List.mem_mapIdx.mp hm
    refine Or.inr (Or.inr ⟨_, rfl, rfl, hfree _ ?_⟩)
    unfold partSize
    omega

/-- What acceptance has checked of a part delivery. -/
theorem validateIngestPart_ok {d : Delivery} {part : Option Uuid}
    (h : validateIngestPart s d = .ok part) : ∀ p ∈ part,
      (s.parts.find? p).isSome ∧ ∀ row ∈ d.run.payload.rows, row.memberKey ∈ s.expected p := by
  intro p hp
  unfold validateIngestPart at h
  split at h
  · obtain ⟨_, -, h⟩ := ok_bind h
    cases ok_pure h
    cases hp
  · obtain ⟨_, -, h⟩ := ok_bind h
    cases ok_pure h
    cases hp
  · obtain ⟨found, hfound, h⟩ := ok_bind h
    obtain ⟨plan, -, h⟩ := ok_bind h
    obtain ⟨_, -, h⟩ := ok_bind h
    obtain ⟨_, -, h⟩ := ok_bind h
    obtain ⟨_, -, h⟩ := ok_bind h
    obtain ⟨_, hkeys, h⟩ := ok_bind h
    obtain ⟨_, -, h⟩ := ok_bind h
    obtain ⟨_, -, h⟩ := ok_bind h
    obtain ⟨_, -, h⟩ := ok_bind h
    cases ok_pure h
    cases hp
    have hpart := need_ok.mp hfound
    refine ⟨?_, fun row hrow => ?_⟩
    · rw [(Table.find?_eq_some.mp hpart).2, hpart]
      rfl
    · exact List.contains_iff_mem.mp (List.all_eq_true.mp (ensure_ok.mp hkeys) row hrow)

theorem deliver_ok {d : Delivery} (h : deliver s d = .ok ws) :
    ∃ part receipts, validateIngestPart s d = .ok part ∧ s.runs.find? d.run.runId = none ∧
      newReceipt s d = .ok receipts ∧ ws = .addRun (newRun d part) :: receipts := by
  unfold deliver at h
  obtain ⟨part, hpart, h⟩ := ok_bind h
  obtain ⟨_, hfree, h⟩ := ok_bind h
  obtain ⟨receipts, hreceipts, h⟩ := ok_bind h
  exact ⟨part, receipts, hpart, Option.isNone_iff_eq_none.mp (ensure_ok.mp hfree), hreceipts, ok_pure h⟩

theorem newReceipt_ok {d : Delivery} {receipts : List Write} (h : newReceipt s d = .ok receipts) :
    receipts = [] ∨ ∃ receipt work, receipts = [.addReceipt receipt] ∧
      receipt.runId = d.run.runId ∧ s.works.find? receipt.workId = some work ∧
      work.acceptsMember receipt.memberKey receipt.payloadSha256
        (some (d.run.payload.rows.map (·.memberKey))) = .ok () := by
  unfold newReceipt at h
  split at h
  · cases h
    exact Or.inl rfl
  · obtain ⟨work, hwork, h⟩ := ok_bind h
    obtain ⟨_, haccepts, h⟩ := ok_bind h
    exact Or.inr ⟨_, work, ok_pure h, rfl, need_ok.mp hwork, mapError_ok haccepts⟩

/-- A rerun is a queued copy, with the part and the payload of its run. -/
theorem rerun_ok {runId newRunId : Uuid} {bounded : Bool} {now : Instant}
    (h : rerun s runId newRunId bounded now = .ok ws) :
    ∃ original copy, s.runs.find? runId = some original ∧ s.runs.find? newRunId = none ∧
      ws = [.addRun copy] ∧ copy.runId = newRunId ∧ copy.status = .queued ∧
      copy.deliveryPartId = original.deliveryPartId ∧ copy.payload = original.payload := by
  unfold rerun at h
  obtain ⟨original, horiginal, h⟩ := ok_bind h
  obtain ⟨_, hfree, h⟩ := ok_bind h
  have hfree := Option.isNone_iff_eq_none.mp (ensure_ok.mp hfree)
  dsimp only at h
  split at h
  · exact ⟨original, _, need_ok.mp horiginal, hfree, ok_pure h, rfl, rfl, rfl, rfl⟩
  · exact ⟨original, _, need_ok.mp horiginal, hfree, ok_pure h, rfl, rfl, rfl, rfl⟩

theorem start_ok {runId : Uuid} (h : start s runId = .ok ws) :
    ws = [] ∨ ws = [.setRun runId .processing none] := by
  unfold start at h
  obtain ⟨run, -, h⟩ := ok_bind h
  split at h
  · exact Or.inl (ok_pure h)
  · exact Or.inr (ok_pure h)

theorem scheduleRetry_ok {runId : Uuid} {exhausted : Bool}
    (h : scheduleRetry s runId exhausted = .ok ws) :
    ws = [.setRun runId (if exhausted then .failed else .retrying) none] := by
  unfold scheduleRetry at h
  obtain ⟨run, -, h⟩ := ok_bind h
  exact ok_pure h

theorem markPermanentFailure_ok {runId : Uuid} (h : markPermanentFailure s runId = .ok ws) :
    ws = [.setRun runId .failed none] := by
  unfold markPermanentFailure at h
  obtain ⟨run, -, h⟩ := ok_bind h
  exact ok_pure h

/-- The rows, the status and the evidence of a normalization that ends. -/
structure Completes (cfg : Config) (s : State) (run : IngestionRun)
    (rows : List (PayloadRow × Verdict)) (p : Progress) (ws : List Write) : Prop where
  normalizing : Normalizing cfg s run rows p
  writes : ∃ status counts, (status = .completed ∨ status = .completedWithErrors) ∧
    ws = p.writes ++ [.setRun run.runId status (some counts)] ++
      (p.state.deliveryEvidence run).map (.addEvidence run.runId)

theorem complete_ok {runId : Uuid} {ncfg : Canonical.NormalizerConfig} {now : Instant}
    {verdict : Nat → Verdict} (h : complete cfg s runId ncfg now verdict = .ok ws) :
    ∃ run, s.runs.find? runId = some run ∧ Completes cfg s run (judged cfg run verdict)
      ((judged cfg run verdict).foldl (normalizeRow cfg run ncfg now) ⟨s, [], 0, 0⟩) ws := by
  unfold complete at h
  obtain ⟨run, hrun, h⟩ := ok_bind h
  have hrun := need_ok.mp hrun
  have hid := (Table.find?_eq_some.mp hrun).2
  refine ⟨run, hrun, Normalizing.all .., _, _, ?_, by rw [hid]; exact ok_pure h⟩
  split
  · exact Or.inl rfl
  · exact Or.inr rfl

theorem recordOutcome_ok {body : OutcomeRequest} {now : Instant}
    (h : recordOutcome s body now = .ok ws) : ws = [] ∨
      ∃ m entry, s.members.find? (body.planId, body.memberKey) = some m ∧
        m.outcome ≠ some .noData ∧ ws = [.setOutcome body.planId body.memberKey entry] := by
  unfold recordOutcome at h
  obtain ⟨plan, -, h⟩ := ok_bind h
  obtain ⟨m, hm, h⟩ := ok_bind h
  obtain ⟨_, -, h⟩ := ok_bind h
  obtain ⟨_, -, h⟩ := ok_bind h
  split at h
  · exact Or.inl (ok_pure h)
  · obtain ⟨_, hmutable, h⟩ := ok_bind h
    refine Or.inr ⟨m, _, ?_, bne_iff_ne.mp (ensure_ok.mp hmutable), ok_pure h⟩
    exact (Option.filter_eq_some_iff.mp (need_ok.mp hm)).1

theorem applyRepair_ok {planId : Uuid} {changes : List RepairChange}
    (h : applyRepair s planId changes = .ok ws) :
    ws = changes.map fun c => .addRepair ⟨planId, c.memberKey, c.providerSymbol⟩ := by
  unfold applyRepair at h
  obtain ⟨plan, -, h⟩ := ok_bind h
  obtain ⟨_, -, h⟩ := ok_bind h
  exact ok_pure h

theorem freezeManifest_ok {workId : Uuid} {manifest : ProviderWork.Manifest}
    (h : freezeManifest s workId manifest = .ok ws) : ws = [] ∨
      ∃ work, s.works.find? workId = some work ∧ work.manifest = none ∧
        ws = [.setManifest workId manifest] := by
  unfold freezeManifest at h
  obtain ⟨work, hwork, h⟩ := ok_bind h
  split at h
  · exact Or.inl (ok_pure h)
  · obtain ⟨_, hnone, h⟩ := ok_bind h
    exact Or.inr ⟨work, need_ok.mp hwork, Option.isNone_iff_eq_none.mp (ensure_ok.mp hnone), ok_pure h⟩

end FinDB.Plans
