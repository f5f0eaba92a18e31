import FinDB.ProviderWork.Steps
import FinDB.Plans.Snapshots

/-! # Two readings of a complete sequence

`settle` keeps the runs that succeeded and then looks at their numbers. The list of
snapshot groups keeps the newest attempt of each number and then looks at how it
went. -/
namespace FinDB.Plans
open FinDB.Lib

/-! ## The runs of a work -/

/-- The receipts of `work` name the runs `q` selects, with the same columns. -/
structure ReceiptRuns (db : ProviderWork.Db) (work : ProviderWork.Work) (s : State)
    (q : SnapshotQuery) : Prop where
  dated : q.dataDate = work.tradeDate ∧ work.tradeDate.isSome
  selected : ∀ id, id ∈ work.runIds db ↔
    ∃ run ∈ s.runs, run.runId = id ∧ q.selects run = true
  status : ∀ run ∈ s.runs, q.selects run = true → (db.run run.runId).status = run.status
  identity : ∀ run ∈ s.runs, q.selects run = true →
    (db.run run.runId).batchDataDate = run.batchDataDate ∧
    (db.run run.runId).snapshotId = run.snapshotId ∧
    (db.run run.runId).dailyUpdateId = run.dailyUpdateId ∧
    (db.run run.runId).sequence = run.sequence ∧
    (db.run run.runId).sequenceCount = run.sequenceCount
  totals : ∀ run ∈ s.runs, q.selects run = true →
    (db.run run.runId).totalRecords = run.totalRecords ∧
    (db.run run.runId).successRecords = run.successRecords ∧
    (db.run run.runId).failedRecords = run.failedRecords

/-- `complete_runs` of `settle`. -/
def completeRuns (db : ProviderWork.Db) (work : ProviderWork.Work) : List Uuid :=
  (work.goodRuns db).filter fun id =>
    ProviderWork.sequenceComplete db (work.goodRuns db) (db.run id)

/-- `settle` counts the members of the group. -/
def Settled (db : ProviderWork.Db) (work : ProviderWork.Work)
    (snapshotId dailyUpdateId : Option String) : Prop :=
  ∃ id ∈ completeRuns db work,
    (db.run id).snapshotId = snapshotId ∧ (db.run id).dailyUpdateId = dailyUpdateId

/-- The list of groups marks the group complete. -/
def Listed (s : State) (q : SnapshotQuery) (snapshotId dailyUpdateId : Option String) : Prop :=
  ∃ g ∈ s.listSequencedSnapshotGroups q,
    g.key = ⟨q.dataDate, snapshotId, dailyUpdateId⟩ ∧ g.complete = true

variable {db : ProviderWork.Db} {work : ProviderWork.Work} {s : State} {q : SnapshotQuery}
variable {snapshotId dailyUpdateId : Option String}

/-- The attempts of a group of the queried date. -/
abbrev groupOf (s : State) (q : SnapshotQuery) (snapshotId dailyUpdateId : Option String) :
    List IngestionRun :=
  s.groupRuns q ⟨q.dataDate, snapshotId, dailyUpdateId⟩

/-! ## settle -/

theorem mem_completedKeys (hmode : work.manifest.bind (·.mode) = some "canonical")
    {key : MemberKey} :
    key ∈ work.completedKeys db ↔ ∃ id ∈ completeRuns db work, (id, key) ∈ db.evidence := by
  unfold ProviderWork.Work.completedKeys
  simp only [hmode, beq_self_eq_true, if_true, List.mem_map, List.mem_filter,
    List.contains_iff_mem, completeRuns]
  constructor
  · rintro ⟨⟨id, _⟩, ⟨hmem, hid⟩, rfl⟩
    exact ⟨id, hid, hmem⟩
  · rintro ⟨id, hid, hmem⟩
    exact ⟨(id, key), ⟨hmem, hid⟩, rfl⟩

/-- The runs that succeeded. -/
theorem ReceiptRuns.mem_goodRuns (h : ReceiptRuns db work s q) {id : Uuid} :
    id ∈ work.goodRuns db ↔
      ∃ run ∈ s.runs, run.runId = id ∧ q.selects run = true ∧ run.clean = true := by
  have hclean : ∀ run ∈ s.runs, q.selects run = true →
      (db.run run.runId).clean = run.clean := by
    intro run hrun hsel
    obtain ⟨ht, hs, hf⟩ := h.totals run hrun hsel
    rw [ProviderWork.Run.clean, IngestionRun.clean, h.status run hrun hsel, ht, hs, hf,
      Bool.and_right_comm]
  unfold ProviderWork.Work.goodRuns
  rw [List.mem_filter, h.selected]
  constructor
  · rintro ⟨⟨run, hrun, rfl, hsel⟩, hgood⟩
    exact ⟨run, hrun, rfl, hsel, (hclean run hrun hsel).symm.trans hgood⟩
  · rintro ⟨run, hrun, rfl, hsel, hgood⟩
    exact ⟨⟨run, hrun, rfl, hsel⟩, (hclean run hrun hsel).trans hgood⟩

/-- A selected run is of the queried date. -/
theorem ReceiptRuns.mem_groupOf (h : ReceiptRuns db work s q) {run : IngestionRun} :
    run ∈ groupOf s q snapshotId dailyUpdateId ↔ run ∈ s.runs ∧ q.selects run = true ∧
      run.snapshotId = snapshotId ∧ run.dailyUpdateId = dailyUpdateId := by
  rw [State.mem_groupRuns]
  refine and_congr_right fun _ => and_congr_right fun hsel => ?_
  obtain ⟨date, hdate⟩ := Option.isSome_iff_exists.mp h.dated.2
  rw [← h.dated.1] at hdate
  have hall : q.dataDate.all (fun d => run.batchDataDate == some d) = true := by
    simp only [SnapshotQuery.selects, Bool.and_eq_true] at hsel
    exact hsel.2
  have hbatch : run.batchDataDate = q.dataDate := by
    rw [hdate] at hall ⊢
    exact beq_iff_eq.mp hall
  simp [IngestionRun.snapshotKey, hbatch]

/-- The runs `settle` puts together with a run. -/
theorem ReceiptRuns.mem_sequenceGroup (h : ReceiptRuns db work s q) {head r : ProviderWork.Run} :
    r ∈ ProviderWork.sequenceGroup db (work.goodRuns db) head ↔
      ∃ run ∈ groupOf s q head.snapshotId head.dailyUpdateId,
        run.clean = true ∧ db.run run.runId = r := by
  unfold ProviderWork.sequenceGroup
  simp only [List.mem_filter, List.mem_map, h.mem_goodRuns, h.mem_groupOf, Bool.and_eq_true,
    beq_iff_eq]
  constructor
  · rintro ⟨⟨_, ⟨run, hrun, rfl, hsel, hgood⟩, rfl⟩, ⟨-, hsnap⟩, hupd⟩
    obtain ⟨-, hs, hu, -, -⟩ := h.identity run hrun hsel
    exact ⟨run, ⟨hrun, hsel, hs.symm.trans hsnap, hu.symm.trans hupd⟩, hgood, rfl⟩
  · rintro ⟨run, ⟨hrun, hsel, hsnap, hupd⟩, hgood, rfl⟩
    obtain ⟨-, hs, hu, -, hc⟩ := h.identity run hrun hsel
    refine ⟨⟨_, ⟨run, hrun, rfl, hsel, hgood⟩, rfl⟩, ⟨?_, hs.trans hsnap⟩, hu.trans hupd⟩
    rw [hc, (selects_sequence hsel).2]
    rfl

/-- The numbers and the counts of the runs that succeeded. -/
theorem ReceiptRuns.columns (h : ReceiptRuns db work s q) {run : IngestionRun}
    (hrun : run ∈ groupOf s q snapshotId dailyUpdateId) :
    (db.run run.runId).sequence = some run.part ∧
      (db.run run.runId).sequenceCount = some run.count := by
  obtain ⟨hrun, hsel, -⟩ := h.mem_groupOf.mp hrun
  obtain ⟨-, -, -, hseq, hcount⟩ := h.identity run hrun hsel
  obtain ⟨hpart, hn⟩ := selects_sequence hsel
  exact ⟨hseq.trans hpart, hcount.trans hn⟩

theorem ReceiptRuns.mem_sequences (h : ReceiptRuns db work s q) {head : ProviderWork.Run}
    {k : Option Nat} :
    k ∈ (ProviderWork.sequenceGroup db (work.goodRuns db) head).map (·.sequence) ↔
      ∃ run ∈ groupOf s q head.snapshotId head.dailyUpdateId,
        run.clean = true ∧ some run.part = k := by
  rw [List.mem_map]
  constructor
  · rintro ⟨r, hr, hk⟩
    obtain ⟨run, hrun, hgood, rfl⟩ := h.mem_sequenceGroup.mp hr
    exact ⟨run, hrun, hgood, (h.columns hrun).1.symm.trans hk⟩
  · rintro ⟨run, hrun, hgood, hk⟩
    exact ⟨_, h.mem_sequenceGroup.mpr ⟨run, hrun, hgood, rfl⟩, (h.columns hrun).1.trans hk⟩

theorem mem_numbers {n : Nat} {o : Option Nat} :
    o ∈ (List.range n).map (fun i => some (i + 1)) ↔ ∃ k, o = some k ∧ 1 ≤ k ∧ k ≤ n := by
  simp only [List.mem_map, List.mem_range]
  constructor
  · rintro ⟨i, hi, rfl⟩
    exact ⟨i + 1, rfl, by omega, by omega⟩
  · rintro ⟨k, rfl, hk⟩
    exact ⟨k - 1, by omega, congrArg some (by omega)⟩

/-- The test `settle` makes of the group of a run. -/
theorem ReceiptRuns.sequenceComplete_iff (h : ReceiptRuns db work s q) {run : IngestionRun}
    (hrun : run ∈ groupOf s q snapshotId dailyUpdateId) :
    ProviderWork.sequenceComplete db (work.goodRuns db) (db.run run.runId) = true ↔
      (∀ r ∈ groupOf s q snapshotId dailyUpdateId, r.clean = true → r.count = run.count) ∧
      ∀ k, (∃ r ∈ groupOf s q snapshotId dailyUpdateId, r.clean = true ∧ r.part = k) ↔
        1 ≤ k ∧ k ≤ run.count := by
  obtain ⟨hmem, hsel, rfl, rfl⟩ := h.mem_groupOf.mp hrun
  obtain ⟨-, hsnap, hupd, -, -⟩ := h.identity run hmem hsel
  have hgroup (r : ProviderWork.Run) := @mem_sequenceGroup _ _ _ _ h (db.run run.runId) r
  have hparts (k : Option Nat) := @mem_sequences _ _ _ _ h (db.run run.runId) k
  rw [hsnap, hupd] at hgroup hparts
  unfold ProviderWork.sequenceComplete
  rw [(h.columns hrun).2]
  simp only [Bool.and_eq_true, List.all_eq_true, ProviderWork.sameSet_iff, hparts, mem_numbers,
    beq_iff_eq]
  refine and_congr ⟨fun hall r hr hgood => ?_, fun hall r hr => ?_⟩
    ⟨fun hset k => ?_, fun hset o => ?_⟩
  · have hcount := hall _ ((hgroup _).mpr ⟨r, hr, hgood, rfl⟩)
    rw [(h.columns hr).2] at hcount
    exact Option.some.inj hcount
  · obtain ⟨run', hrun', hgood, rfl⟩ := (hgroup r).mp hr
    rw [(h.columns hrun').2, hall run' hrun' hgood]
  · simpa using hset (some k)
  · constructor
    · rintro ⟨r, hr, hgood, rfl⟩
      exact ⟨r.part, rfl, (hset _).mp ⟨r, hr, hgood, rfl⟩⟩
    · rintro ⟨k, rfl, hk⟩
      obtain ⟨r, hr, hgood, hpart⟩ := (hset k).mpr hk
      exact ⟨r, hr, hgood, congrArg some hpart⟩

/-- The successful attempts of the group are a full sequence. -/
theorem ReceiptRuns.settled_iff (h : ReceiptRuns db work s q) :
    Settled db work snapshotId dailyUpdateId ↔ ∃ n, GoodNumbered IngestionRun.part
      (groupOf s q snapshotId dailyUpdateId) IngestionRun.count (·.clean = true) n := by
  constructor
  · rintro ⟨id, hid, hsnap, hupd⟩
    obtain ⟨hgood, hcomplete⟩ := List.mem_filter.mp hid
    obtain ⟨run, hmem, rfl, hsel, hclean⟩ := h.mem_goodRuns.mp hgood
    obtain ⟨-, hs, hu, -, -⟩ := h.identity run hmem hsel
    have hrun := h.mem_groupOf.mpr ⟨hmem, hsel, hs.symm.trans hsnap, hu.symm.trans hupd⟩
    obtain ⟨hcount, hparts⟩ := (h.sequenceComplete_iff hrun).mp hcomplete
    exact ⟨run.count, ⟨run, hrun, hclean⟩, hcount, hparts⟩
  · rintro ⟨n, ⟨run, hrun, hclean⟩, hcount, hparts⟩
    obtain ⟨hmem, hsel, hsnap, hupd⟩ := h.mem_groupOf.mp hrun
    obtain ⟨-, hs, hu, -, -⟩ := h.identity run hmem hsel
    have hn := hcount run hrun hclean
    have hcomplete := (h.sequenceComplete_iff hrun).mpr (hn ▸ ⟨hcount, hparts⟩)
    have hgood := h.mem_goodRuns.mpr ⟨run, hmem, rfl, hsel, hclean⟩
    exact ⟨run.runId, List.mem_filter.mpr ⟨hgood, hcomplete⟩, hs.trans hsnap, hu.trans hupd⟩

/-! ## The list of groups -/

/-- The newest attempts of the group are a full sequence, and all went well. -/
theorem listed_iff : Listed s q snapshotId dailyUpdateId ↔
    groupOf s q snapshotId dailyUpdateId ≠ [] ∧ ∃ n, NewestNumbered IngestionRun.part
      IngestionRun.rank (groupOf s q snapshotId dailyUpdateId) IngestionRun.count
      (·.clean = true) n := by
  rw [← groupComplete_latest]
  constructor
  · rintro ⟨g, hg, hkey, hcomplete⟩
    obtain ⟨-, he⟩ := mem_listSequencedSnapshotGroups.mp hg
    rw [he, hkey] at hcomplete
    exact hcomplete
  · intro hcomplete
    obtain ⟨h0, -⟩ := (groupComplete_latest _).mp hcomplete
    exact ⟨aggregate ⟨q.dataDate, snapshotId, dailyUpdateId⟩ _,
      mem_listSequencedSnapshotGroups.mpr ⟨h0, rfl⟩, rfl, hcomplete⟩

/-! ## Agreement -/

/-- No newest attempt went wrong once the good attempts are a full sequence, and no good attempt
declares another number than newest attempts that are one. -/
structure Harmonious (rows : List IngestionRun) : Prop where
  late : ∀ n, GoodNumbered IngestionRun.part rows IngestionRun.count (·.clean = true) n →
    ∀ run, Newest IngestionRun.part IngestionRun.rank rows run → run.clean = true
  declared : ∀ n, NewestNumbered IngestionRun.part IngestionRun.rank rows IngestionRun.count
    (·.clean = true) n → ∀ run ∈ rows, run.clean = true → run.count = n

/-- One group: what `settle` counts is what the list shows when no late attempt failed and no
superseded attempt declares another number. -/
theorem ReceiptRuns.agree_iff (h : ReceiptRuns db work s q) :
    (Settled db work snapshotId dailyUpdateId ↔ Listed s q snapshotId dailyUpdateId) ↔
      Harmonious (groupOf s q snapshotId dailyUpdateId) := by
  rw [h.settled_iff, listed_iff]
  by_cases h0 : groupOf s q snapshotId dailyUpdateId = []
  · rw [h0]
    refine ⟨fun _ => ⟨fun n hn => ?_, fun n _ run hrun => absurd hrun List.not_mem_nil⟩, fun _ => ?_⟩
    · obtain ⟨run, hrun, -⟩ := hn.1
      exact absurd hrun List.not_mem_nil
    · refine ⟨fun ⟨n, hn⟩ => ?_, fun hn => absurd rfl hn.1⟩
      obtain ⟨run, hrun, -⟩ := hn.1
      exact absurd hrun List.not_mem_nil
  · simp only [ne_eq, h0, not_false_eq_true, true_and]
    rw [goodNumbered_iff_newestNumbered h0]
    exact ⟨fun hall => ⟨hall.1, hall.2⟩, fun hall => ⟨hall.late, hall.declared⟩⟩

/-- The members `settle` counts are those of the runs of settled groups, and the settled groups
are the listed ones exactly when every group is harmonious. -/
theorem settled_listed_iff (h : ReceiptRuns db work s q)
    (hmode : work.manifest.bind (·.mode) = some "canonical") :
    (∀ key, key ∈ work.completedKeys db ↔ ∃ run ∈ s.runs, q.selects run = true ∧
      run.clean = true ∧ Settled db work run.snapshotId run.dailyUpdateId ∧
      (run.runId, key) ∈ db.evidence) ∧
    ((∀ snapshotId dailyUpdateId,
        Settled db work snapshotId dailyUpdateId ↔ Listed s q snapshotId dailyUpdateId) ↔
      ∀ snapshotId dailyUpdateId, Harmonious (groupOf s q snapshotId dailyUpdateId)) := by
  refine ⟨fun key => ?_, forall_congr' fun snapshotId => forall_congr' fun dailyUpdateId =>
    h.agree_iff⟩
  rw [mem_completedKeys hmode]
  constructor
  · rintro ⟨id, hid, hkey⟩
    obtain ⟨hgood, -⟩ := List.mem_filter.mp hid
    obtain ⟨run, hrun, rfl, hsel, hclean⟩ := h.mem_goodRuns.mp hgood
    obtain ⟨-, hs, hu, -, -⟩ := h.identity run hrun hsel
    exact ⟨run, hrun, hsel, hclean, ⟨_, hid, hs, hu⟩, hkey⟩
  · rintro ⟨run, hrun, hsel, hclean, hsettled, hkey⟩
    have hmem := h.mem_groupOf.mpr ⟨hrun, hsel, rfl, rfl⟩
    obtain ⟨n, hn⟩ := h.settled_iff.mp hsettled
    have hgood := h.mem_goodRuns.mpr ⟨run, hrun, rfl, hsel, hclean⟩
    have hcount := hn.2.1 run hmem hclean
    have hcomplete := (h.sequenceComplete_iff hmem).mpr (hcount ▸ hn.2)
    exact ⟨run.runId, List.mem_filter.mpr ⟨hgood, hcomplete⟩, hkey⟩

/-! ## A retry -/

/-- An attempt of part 1 of 1. -/
def sampleAttempt (runId : Uuid) (createdAt : Instant) (status : RunStatus) : IngestionRun where
  runId := runId
  datasetKey := "tw_equity_minute"
  source := .shioaji
  deliveryPartId := some 10
  schemaVersion := 1
  batchDataDate := some 3
  deliveryMode := some "sequenced_snapshot"
  snapshotId := some "S"
  dailyUpdateId := some "U"
  sequence := some 1
  sequenceCount := some 1
  isRerun := false
  status := status
  totalRecords := 1
  successRecords := if status == .completed then 1 else 0
  failedRecords := if status == .completed then 0 else 1
  createdAt := createdAt
  payload := ⟨.marketMinute, [], by simp⟩

/-- A part that was written, and sent again. -/
def sampleRetried (status : RunStatus) : State :=
  { State.init with
    runs := ⟨[sampleAttempt 1 1 .completed, sampleAttempt 2 2 status], by simp [sampleAttempt]⟩ }

def sampleQuery : SnapshotQuery :=
  ⟨"tw_equity_minute", .shioaji, .marketMinute, 1, some 3, some 10⟩

def sampleWork : ProviderWork.Work where
  workId := 7
  stableKey := .daily .fullMarket "tw_equity_minute" 3
  kind := .historical
  datasetKey := "tw_equity_minute"
  tradeDate := some 3
  executionProfile := some .fullMarket
  scope := .empty
  manifest := some ⟨[⟨"A", none, none, none⟩], none, false, none, some "canonical", [], none⟩
  state := .queued
  completedAt := none

/-- The run as `settle` reads it. -/
def asRead (run : IngestionRun) : ProviderWork.Run :=
  { ProviderWork.cleanRun run.source run.datasetKey with
    status := run.status, batchDataDate := run.batchDataDate, snapshotId := run.snapshotId,
    dailyUpdateId := run.dailyUpdateId, sequence := run.sequence,
    sequenceCount := run.sequenceCount, totalRecords := run.totalRecords,
    successRecords := run.successRecords, failedRecords := run.failedRecords }

/-- Both runs have a receipt; the first wrote the member. -/
def sampleReceipts (status : RunStatus) : ProviderWork.Db :=
  { ProviderWork.Db.init { ProviderWork.bareRegistry .shioaji "tw_equity_minute" with
      runs := fun id => if id == 1 then asRead (sampleAttempt 1 1 .completed)
        else asRead (sampleAttempt 2 2 status) } with
    receipts := ⟨[⟨1, 7, 8, "m1", "p1"⟩, ⟨2, 7, 8, "m1", "p2"⟩], by decide⟩
    evidence := [(1, "A")] }

theorem sample_receiptRuns (status : RunStatus) :
    ReceiptRuns (sampleReceipts status) sampleWork (sampleRetried status) sampleQuery := by
  have hruns {P : IngestionRun → Prop} (h₁ : P (sampleAttempt 1 1 .completed))
      (h₂ : P (sampleAttempt 2 2 status)) : ∀ run ∈ (sampleRetried status).runs, P run := by
    intro run hrun
    rcases List.mem_pair.mp hrun with rfl | rfl
    · exact h₁
    · exact h₂
  refine ⟨⟨rfl, rfl⟩, fun id => ?_, hruns (fun _ => rfl) (fun _ => rfl),
    hruns (fun _ => ⟨rfl, rfl, rfl, rfl, rfl⟩) fun _ => ⟨rfl, rfl, rfl, rfl, rfl⟩,
    hruns (fun _ => ⟨rfl, rfl, rfl⟩) fun _ => ⟨rfl, rfl, rfl⟩⟩
  change id ∈ [1, 2] ↔ _
  rw [List.mem_pair]
  constructor
  · rintro (rfl | rfl)
    · exact ⟨sampleAttempt 1 1 .completed, List.mem_pair.mpr (.inl rfl), rfl, rfl⟩
    · exact ⟨sampleAttempt 2 2 status, List.mem_pair.mpr (.inr rfl), rfl, rfl⟩
  · rintro ⟨run, hrun, rfl, -⟩
    rcases List.mem_pair.mp hrun with rfl | rfl
    · exact .inl rfl
    · exact .inr rfl

/-- The retry failed: the list shows the group incomplete, and `settle` counts it. -/
theorem settled_not_listed :
    ReceiptRuns (sampleReceipts .failed) sampleWork (sampleRetried .failed) sampleQuery ∧
    "A" ∈ sampleWork.completedKeys (sampleReceipts .failed) ∧
    Settled (sampleReceipts .failed) sampleWork (some "S") (some "U") ∧
    ¬ Listed (sampleRetried .failed) sampleQuery (some "S") (some "U") := by
  refine ⟨sample_receiptRuns _, by decide +kernel, ⟨1, by decide +kernel, rfl, rfl⟩, ?_⟩
  rintro ⟨g, hg, -, hcomplete⟩
  revert g
  decide +kernel

/-- With every attempt written, and one number of parts, nothing can be told apart. -/
theorem harmonious_of_clean {rows : List IngestionRun} {n : Nat}
    (h : ∀ run ∈ rows, run.clean = true ∧ run.count = n) : Harmonious rows := by
  refine ⟨fun _ _ run hrun => (h run hrun.1).1, fun m hm run hrun _ => ?_⟩
  obtain ⟨newest, hnewest, -⟩ : ∃ newest, Newest IngestionRun.part IngestionRun.rank rows newest ∧
    newest.part = run.part := exists_newest hrun
  rw [(h run hrun).2, ← (h newest hnewest.1).2]
  exact (hm.2 newest hnewest).1

/-- The retry was written too, and both readings agree. -/
theorem settled_listed_sample :
    Settled (sampleReceipts .completed) sampleWork (some "S") (some "U") ↔
      Listed (sampleRetried .completed) sampleQuery (some "S") (some "U") := by
  refine (settled_listed_iff (sample_receiptRuns .completed) rfl).2.mpr (fun _ _ => ?_) _ _
  refine @harmonious_of_clean _ 1 fun run hrun => ?_
  rcases List.mem_pair.mp (State.mem_groupRuns.mp hrun).1 with rfl | rfl
  · exact ⟨rfl, rfl⟩
  · exact ⟨rfl, rfl⟩

end FinDB.Plans
