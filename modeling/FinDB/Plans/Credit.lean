import FinDB.Plans.Progress

/-! # Which members a run credits

A part delivery is accepted under the keys of its rows; its evidence has the symbols of
the instruments those rows resolved to. -/
namespace FinDB.Plans
open FinDB.Lib

variable {cfg : Config} {s : State} {run : IngestionRun} {ncfg : Canonical.NormalizerConfig}
  {now : Instant} {p : Progress}

/-! ## Applied rows -/

/-- The rows whose canonical write was applied, with the instruments they resolved to. -/
def applied (cfg : Config) (run : IngestionRun) (ncfg : Canonical.NormalizerConfig) (now : Instant) :
    Progress → List (PayloadRow × Verdict) → List (PayloadRow × Instrument)
  | _, [] => []
  | p, row :: rest =>
    let next := normalizeRow cfg run ncfg now p row
    if p.success < next.success then
      (row.1, (resolveInstrument cfg run row.1 p.state).1) :: applied cfg run ncfg now next rest
    else applied cfg run ncfg now next rest

/-- The rows of a run that a normalization applies. -/
def appliedOf (cfg : Config) (s : State) (run : IngestionRun) (ncfg : Canonical.NormalizerConfig)
    (now : Instant) (verdict : Nat → Verdict) : List (PayloadRow × Instrument) :=
  applied cfg run ncfg now ⟨s, [], 0, 0⟩ (judged cfg run verdict)

/-- A row either leaves the canonical rows, or is counted and puts one of its run. -/
theorem normalizeRow_cases (row : PayloadRow × Verdict) :
    ((normalizeRow cfg run ncfg now p row).success = p.success ∧
      (normalizeRow cfg run ncfg now p row).state.canonical = p.state.canonical) ∨
    ((normalizeRow cfg run ncfg now p row).success = p.success + 1 ∧ ∃ c : CanonicalRow,
      (normalizeRow cfg run ncfg now p row).state.canonical =
        p.state.canonical.upsert c (fun old => { old with row := c.row }) ∧
      c.slot = slotOf (resolveInstrument cfg run row.1 p.state).1 row.1 ∧
      c.runId = some run.runId) := by
  unfold normalizeRow
  split
  · exact Or.inl ⟨rfl, rfl⟩
  · generalize resolveInstrument cfg run row.1 p.state = resolved
    dsimp only
    have hq : (resolved.2.elim p fun i => p.put (.addIdentifier i)).success = p.success ∧
        (resolved.2.elim p fun i => p.put (.addIdentifier i)).state.canonical =
          p.state.canonical := by
      cases resolved.2 <;> exact ⟨rfl, rfl⟩
    generalize resolved.2.elim p (fun i => p.put (.addIdentifier i)) = q at hq
    obtain ⟨hsuccess, hcanonical⟩ := hq
    split
    · exact Or.inl ⟨hsuccess, hcanonical⟩
    · split
      · rename_i happlied
        refine Or.inr ⟨by rw [← hsuccess], ⟨slotOf resolved.1 row.1, _⟩, ?_, rfl,
          upsert_runId happlied⟩
        rw [← hcanonical]
        rfl
      · exact Or.inl ⟨hsuccess, hcanonical⟩

/-- The run's canonical rows are those of the rows applied so far. -/
structure Traced (run : IngestionRun) (p : Progress) (done : List (PayloadRow × Instrument)) :
    Prop where
  sound : ∀ c ∈ p.state.canonical, c.runId = some run.runId → ∃ a ∈ done, c.slot = slotOf a.2 a.1
  full : ∀ a ∈ done, ∃ c ∈ p.state.canonical, c.runId = some run.runId ∧ c.slot = slotOf a.2 a.1

theorem Traced.put {q : Progress} {done : List (PayloadRow × Instrument)} (h : Traced run p done)
    {c : CanonicalRow} {row : PayloadRow} {instrument : Instrument}
    (hq : q.state.canonical = p.state.canonical.upsert c (fun old => { old with row := c.row }))
    (hslot : c.slot = slotOf instrument row) (hrun : c.runId = some run.runId) :
    Traced run q (done ++ [(row, instrument)]) := by
  have hnew : (p.state.canonical.find? c.slot).elim c (fun old => { old with row := c.row }) = c := by
    cases hfind : p.state.canonical.find? c.slot with
    | none => rfl
    | some old =>
      have hsame : old.slot = c.slot := (Table.find?_eq_some.mp hfind).2
      change ({ slot := old.slot, row := c.row } : CanonicalRow) = c
      rw [hsame]
  constructor
  · intro c' hc' hr
    rw [hq] at hc'
    rcases Table.mem_upsert.mp hc' with ⟨hc', -⟩ | rfl
    · obtain ⟨a, ha, hsa⟩ := h.sound c' hc' hr
      exact ⟨a, List.mem_append_left _ ha, hsa⟩
    · rw [hnew]
      exact ⟨(row, instrument), by simp, hslot⟩
  · intro a ha
    rw [hq]
    rcases List.mem_append.mp ha with ha | ha
    · obtain ⟨c', hc', hr, hsa⟩ := h.full a ha
      by_cases hsame : c'.slot = c.slot
      · exact ⟨c, Table.mem_upsert.mpr (Or.inr hnew.symm), hrun, hsame.symm.trans hsa⟩
      · exact ⟨c', Table.mem_upsert.mpr (Or.inl ⟨hc', hsame⟩), hr, hsa⟩
    · cases List.mem_singleton.mp ha
      exact ⟨c, Table.mem_upsert.mpr (Or.inr hnew.symm), hrun, hslot⟩

theorem Traced.all {done : List (PayloadRow × Instrument)} (h : Traced run p done)
    (rows : List (PayloadRow × Verdict)) :
    Traced run (rows.foldl (normalizeRow cfg run ncfg now) p)
      (done ++ applied cfg run ncfg now p rows) := by
  induction rows generalizing p done with
  | nil => rwa [applied, List.append_nil]
  | cons row rest ih =>
    rw [List.foldl_cons]
    unfold applied
    dsimp only
    rcases @normalizeRow_cases cfg run ncfg now p row with
      ⟨hsuccess, hcanonical⟩ | ⟨hsuccess, c, hcanonical, hslot, hrun⟩
    · rw [if_neg (by omega)]
      refine ih ⟨?_, ?_⟩
      · rw [hcanonical]
        exact h.sound
      · rw [hcanonical]
        exact h.full
    · rw [if_pos (by omega), List.append_cons]
      exact ih (h.put hcanonical hslot hrun)

theorem mem_applied {rows : List (PayloadRow × Verdict)} {a : PayloadRow × Instrument}
    (h : a ∈ applied cfg run ncfg now p rows) : ∃ row ∈ rows, a.1 = row.1 := by
  induction rows generalizing p with
  | nil => cases h
  | cons row rest ih =>
    unfold applied at h
    dsimp only at h
    split at h
    · rcases List.mem_cons.mp h with rfl | h
      · exact ⟨row, List.mem_cons_self, rfl⟩
      · obtain ⟨r, hr, he⟩ := ih h
        exact ⟨r, List.mem_cons_of_mem _ hr, he⟩
    · obtain ⟨r, hr, he⟩ := ih h
      exact ⟨r, List.mem_cons_of_mem _ hr, he⟩

theorem slotOf_schema (instrument : Instrument) (row : PayloadRow) :
    (slotOf instrument row).schema = row.schema := by
  cases row <;> rfl

/-- Outside futures a canonical row counts for its instrument's symbol. -/
theorem slotOf_memberKey {instrument : Instrument} {row : PayloadRow}
    (h : row.schema ≠ .futuresEod) : (slotOf instrument row).memberKey = instrument.symbol := by
  cases row with
  | eod => rfl
  | minute => rfl
  | futures => exact absurd rfl h

/-! ## Evidence of a run -/

variable {runId part : Uuid} {verdict : Nat → Verdict} {ws : List Write}

/-- The evidence of a part's run: the symbols its rows resolved to, inside the part. -/
theorem addEvidence_iff (hs : Placed s) (hrun : s.runs.find? runId = some run)
    (hopen : run.status.terminal = false) (hp : run.deliveryPartId = some part)
    (hschema : run.payload.schema ≠ .futuresEod)
    (h : complete cfg s runId ncfg now verdict = .ok ws) (key : MemberKey) :
    .addEvidence runId key ∈ ws ↔ key ∈ s.expected part ∧
      ∃ a ∈ appliedOf cfg s run ncfg now verdict, a.2.symbol = key := by
  have hid : run.runId = runId := (Table.find?_eq_some.mp hrun).2
  -- a run that is still open has written no canonical row yet
  have hfresh : Traced run ⟨s, [], 0, 0⟩ [] := by
    refine ⟨fun c hc hr => ?_, fun _ ha => by cases ha⟩
    obtain ⟨run', hrun', hok⟩ := hs.canonical c hc run.runId hr
    rw [hid] at hrun'
    cases hrun'.symm.trans hrun
    rw [terminal_of_succeeded hok] at hopen
    cases hopen
  have htrace : Traced run ((judged cfg run verdict).foldl (normalizeRow cfg run ncfg now)
      ⟨s, [], 0, 0⟩) (appliedOf cfg s run ncfg now verdict) := hfresh.all (judged cfg run verdict)
  have htyped : ∀ a ∈ appliedOf cfg s run ncfg now verdict, a.1.schema = run.payload.schema := by
    intro a ha
    obtain ⟨row, hrow, he⟩ := mem_applied ha
    rw [he]
    exact run.payload.typed _ (mem_judged hrow)
  obtain ⟨run', hrun', hc⟩ := complete_ok h
  cases hrun'.symm.trans hrun
  have hexpected : ∀ k, k ∈ ((judged cfg run verdict).foldl (normalizeRow cfg run ncfg now)
      ⟨s, [], 0, 0⟩).state.expected part ↔ k ∈ s.expected part := by
    intro k
    rw [hc.normalizing.state]
    refine ⟨fun hk => ?_, expected_kept _⟩
    obtain ⟨m, hm, hmp, hmk⟩ := State.mem_expected.mp hk
    rcases members_from _ hm with ⟨m₀, hm₀, hf⟩ | ⟨m₀, hadd, -⟩
    · exact State.mem_expected.mpr ⟨m₀, hm₀, (Member.partId_of_frozen hf).symm.trans hmp,
        (Member.memberKey_of_frozen hf).symm.trans hmk⟩
    · rcases hc.normalizing.writes _ hadd with ⟨_, hw⟩ | ⟨_, hw, -⟩ <;> cases hw
  have hmem : .addEvidence runId key ∈ ws ↔ key ∈ ((judged cfg run verdict).foldl
      (normalizeRow cfg run ncfg now) ⟨s, [], 0, 0⟩).state.deliveryEvidence run := by
    constructor
    · intro hw
      rcases hc.mem hw with ⟨_, hw⟩ | ⟨_, hw, -⟩ | ⟨_, _, hw⟩ | ⟨k, hk, hw⟩ <;> cases hw
      exact hk
    · intro hk
      obtain ⟨status, counts, -, rfl⟩ := hc.writes
      rw [hid]
      exact List.mem_append_right _ (List.mem_map_of_mem hk)
  rw [hmem]
  unfold State.deliveryEvidence
  rw [hp]
  simp only [List.mem_filter, List.mem_map, List.contains_iff_mem, hexpected, Bool.and_eq_true,
    beq_iff_eq]
  rw [and_comm]
  refine and_congr_right fun _ => ?_
  constructor
  · rintro ⟨c, ⟨hcm, -, hr⟩, hkey⟩
    obtain ⟨a, ha, hslot⟩ := htrace.sound c hcm hr
    refine ⟨a, ha, ?_⟩
    rw [← hkey, hslot, slotOf_memberKey (by rw [htyped a ha]; exact hschema)]
  · rintro ⟨a, ha, hsymbol⟩
    obtain ⟨c, hcm, hr, hslot⟩ := htrace.full a ha
    refine ⟨c, ⟨hcm, ?_, hr⟩, ?_⟩
    · rw [hslot, slotOf_schema, htyped a ha]
    · rw [hslot, slotOf_memberKey (by rw [htyped a ha]; exact hschema), hsymbol]

/-- A plan of one member, delivered. -/
def sampleDelivered (key : String) : State :=
  runAll (step ⟨id, String.toUpper, fun _ => ("US", "equity")⟩)
    [.createPlan (samplePlan 1 0 .pilot) (· + 10) [sampleMember key "X"],
      .deliver (sampleDelivery 100 10 key "X" 0)] .init

end FinDB.Plans
