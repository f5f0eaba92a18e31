import FinDB.Lib.Attempts
import FinDB.Plans.Reconcile
import Mathlib.Data.Prod.Lex

/-! # Sequenced snapshots

A minute snapshot is delivered in parts, each of which may be sent again. A group is
read from aggregates over the newest attempt of every part. -/
namespace FinDB.Plans
open FinDB.Lib

/-! ## The query -/

/-- The arguments of `list_sequenced_snapshot_groups`. -/
structure SnapshotQuery where
  datasetKey : DatasetKey
  source : Provider
  schema : Schema
  schemaVersion : Nat
  dataDate : Option Date
  deliveryPartId : Option Uuid
deriving DecidableEq, Repr

/-- The criteria; `== none` is `IS NULL`. -/
def SnapshotQuery.selects (q : SnapshotQuery) (run : IngestionRun) : Bool :=
  run.datasetKey == q.datasetKey && run.source == q.source && run.payload.schema == q.schema &&
  run.schemaVersion == q.schemaVersion && run.deliveryMode == some "sequenced_snapshot" &&
  !run.isRerun && run.batchDataDate.isSome && run.snapshotId.isSome && run.dailyUpdateId.isSome &&
  run.sequence.isSome && run.sequenceCount.isSome && run.deliveryPartId == q.deliveryPartId &&
  q.dataDate.all fun date => run.batchDataDate == some date

/-- `GROUP BY data_date, snapshot_id, daily_update_id`. -/
structure SnapshotKey where
  dataDate : Option Date
  snapshotId : Option String
  dailyUpdateId : Option String
deriving DecidableEq, Repr

def IngestionRun.snapshotKey (run : IngestionRun) : SnapshotKey :=
  ⟨run.batchDataDate, run.snapshotId, run.dailyUpdateId⟩

structure SequencedSnapshotGroup where
  key : SnapshotKey
  sequenceCount : Option Nat
  latestAttemptAt : Option Instant
  attemptCount : Nat
  complete : Bool
  failed : Bool
deriving DecidableEq, Repr

/-- The aggregates of one group. -/
def aggregate (key : SnapshotKey) (latest : List IngestionRun) : SequencedSnapshotGroup where
  key
  sequenceCount := (latest.filterMap (·.sequenceCount)).min?
  latestAttemptAt := (latest.map (·.createdAt)).max?
  attemptCount := (latest.filterMap (·.sequence)).length
  complete := groupComplete latest
  failed := latest.any (·.status == .failed)

def State.selected (s : State) (q : SnapshotQuery) : List IngestionRun :=
  s.runs.rows.filter q.selects

/-- `ORDER BY created_at DESC, run_id DESC`. -/
def newer (later run : IngestionRun) : Bool :=
  decide (run.createdAt < later.createdAt) ||
  (later.createdAt == run.createdAt && decide (run.runId < later.runId))

/-- `attempt_rank = 1`, within a sequence of a group. -/
def State.latestSequenceAttempt (s : State) (q : SnapshotQuery) : List IngestionRun :=
  (s.selected q).filter fun run => !(s.selected q).any fun later =>
    later.snapshotKey == run.snapshotKey && later.sequence == run.sequence && newer later run

/-- `ORDER BY data_date DESC, max(created_at) DESC`. -/
def listedBefore (a b : SequencedSnapshotGroup) : Bool :=
  decide (b.key.dataDate.getD 0 < a.key.dataDate.getD 0) ||
  (a.key.dataDate == b.key.dataDate &&
    decide (b.latestAttemptAt.getD 0 ≤ a.latestAttemptAt.getD 0))

/-- `list_sequenced_snapshot_groups`. -/
def State.listSequencedSnapshotGroups (s : State) (q : SnapshotQuery) :
    List SequencedSnapshotGroup :=
  let latest := s.latestSequenceAttempt q
  ((latest.map (·.snapshotKey)).dedup.map fun key =>
    aggregate key (latest.filter (·.snapshotKey == key))).mergeSort listedBefore

/-! ## Groups by their runs -/

variable {s : State} {q : SnapshotQuery}

/-- The runs of a group, attempts and retries. -/
def State.groupRuns (s : State) (q : SnapshotQuery) (key : SnapshotKey) : List IngestionRun :=
  (s.selected q).filter (·.snapshotKey == key)

theorem State.mem_groupRuns {key : SnapshotKey} {run : IngestionRun} :
    run ∈ s.groupRuns q key ↔ run ∈ s.runs ∧ q.selects run = true ∧ run.snapshotKey = key := by
  simp only [State.groupRuns, State.selected, List.mem_filter, beq_iff_eq, Table.mem_def, and_assoc]

/-- When an attempt was made; ids break ties. -/
def IngestionRun.rank (run : IngestionRun) : Lex (Instant × Uuid) := toLex (run.createdAt, run.runId)

theorem newer_iff {later run : IngestionRun} : newer later run = true ↔ run.rank < later.rank := by
  unfold newer IngestionRun.rank
  rw [Prod.Lex.toLex_lt_toLex]
  rw [eq_comm (a := run.createdAt)]
  simp only [Bool.or_eq_true, Bool.and_eq_true, decide_eq_true_eq, beq_iff_eq]

/-- The number of a part; every selected run has one. -/
def IngestionRun.part (run : IngestionRun) : Nat := run.sequence.getD 0

/-- How many parts the run says there are. -/
def IngestionRun.count (run : IngestionRun) : Nat := run.sequenceCount.getD 0

/-- Completed, with every record accepted and written. -/
def IngestionRun.clean (run : IngestionRun) : Bool :=
  run.status == .completed && run.totalRecords == run.successRecords && run.failedRecords == 0

theorem selects_sequence {run : IngestionRun} (h : q.selects run = true) :
    run.sequence = some run.part ∧ run.sequenceCount = some run.count := by
  simp only [SnapshotQuery.selects, Bool.and_eq_true] at h
  obtain ⟨⟨⟨⟨-, hseq⟩, hcount⟩, -⟩, -⟩ := h
  obtain ⟨k, hk⟩ := Option.isSome_iff_exists.mp hseq
  obtain ⟨n, hn⟩ := Option.isSome_iff_exists.mp hcount
  exact ⟨by rw [IngestionRun.part, hk]; rfl, by rw [IngestionRun.count, hn]; rfl⟩

/-- What the window function leaves of a group is the newest attempts. -/
theorem mem_latestSequenceAttempt {run : IngestionRun} :
    run ∈ s.latestSequenceAttempt q ↔ Newest IngestionRun.part IngestionRun.rank
      (s.groupRuns q run.snapshotKey) run := by
  unfold State.latestSequenceAttempt Newest
  rw [List.mem_filter, Bool.not_eq_true', List.any_eq_false]
  have hmem : run ∈ s.selected q ↔ run ∈ s.groupRuns q run.snapshotKey := by
    simp [State.groupRuns]
  rw [hmem]
  refine and_congr_right fun hrun => ⟨fun h later hlater hpart => ?_, fun h later hlater => ?_⟩
  · obtain ⟨hlater', hkey⟩ := List.mem_filter.mp hlater
    obtain ⟨-, hsel, -⟩ := State.mem_groupRuns.mp hlater
    obtain ⟨-, hsel', -⟩ := State.mem_groupRuns.mp hrun
    refine le_of_not_gt fun hlt => h later hlater' ?_
    rw [hkey, newer_iff.mpr hlt, (selects_sequence hsel).1, (selects_sequence hsel').1, hpart]
    simp
  · intro hall
    rw [Bool.and_eq_true, Bool.and_eq_true, beq_iff_eq, beq_iff_eq] at hall
    obtain ⟨⟨hkey, hseq⟩, hnewer⟩ := hall
    have hpart : later.part = run.part := congrArg (·.getD 0) hseq
    have hle := h later (List.mem_filter.mpr ⟨hlater, beq_iff_eq.mpr hkey⟩) hpart
    exact absurd (newer_iff.mp hnewer) (not_lt_of_ge hle)

/-! ## Aggregates -/

/-- The aggregates of attempts that have different parts say what the attempts are. -/
theorem groupComplete_iff {latest : List IngestionRun}
    (hseq : ∀ run ∈ latest, run.sequence = some run.part ∧ run.sequenceCount = some run.count)
    (hnodup : (latest.map (·.part)).Nodup) : groupComplete latest = true ↔ latest ≠ [] ∧
      ∃ n, Numbered n (latest.map (·.part)) ∧ ∀ run ∈ latest, run.count = n ∧ run.clean = true := by
  have hparts : latest.filterMap (·.sequence) = latest.map (·.part) :=
    List.filterMap_eq_map_iff_forall_eq_some.mpr fun run hrun => (hseq run hrun).1
  have hcounts : latest.filterMap (·.sequenceCount) = latest.map (·.count) :=
    List.filterMap_eq_map_iff_forall_eq_some.mpr fun run hrun => (hseq run hrun).2
  have hmem (n : Nat) : (∀ c ∈ latest.map (·.count), c = n) ↔ ∀ run ∈ latest, run.count = n := by
    simp
  unfold groupComplete
  rw [hparts, hcounts]
  dsimp only
  cases hmin : (latest.map (·.count)).min? with
  | none =>
    have hnil : latest = [] := List.map_eq_nil_iff.mp (List.min?_eq_none_iff.mp hmin)
    exact ⟨(fun h => by cases h), fun h => absurd hnil h.1⟩
  | some n =>
    have h0 : latest ≠ [] := by
      rintro rfl
      cases hmin
    have h0' : latest.map (·.part) ≠ [] := fun h => h0 (List.map_eq_nil_iff.mp h)
    simp only [Bool.and_eq_true, beq_iff_eq, List.all_eq_true, hnodup.dedup]
    constructor
    · rintro ⟨⟨⟨⟨⟨hclean, hone⟩, hmax⟩, hlen⟩, -⟩, hdistinct⟩
      have hsame := (hmem n).mp (constant_iff.mp ⟨hmin, hdistinct⟩).2
      refine ⟨h0, n, (numbered_iff hnodup h0').mpr ⟨hone, hmax, by rw [List.length_map, hlen]⟩, ?_⟩
      intro run hrun
      refine ⟨hsame run hrun, ?_⟩
      simpa [IngestionRun.clean] using hclean run hrun
    · rintro ⟨-, m, hnum, hall⟩
      have hsame := (constant_iff.mpr ⟨fun h => h0 (List.map_eq_nil_iff.mp h),
        (hmem m).mpr fun run hrun => (hall run hrun).1⟩)
      cases hsame.1.symm.trans hmin
      obtain ⟨hone, hmax, hlen⟩ := (numbered_iff hnodup h0').mp hnum
      rw [List.length_map] at hlen
      refine ⟨⟨⟨⟨⟨fun run hrun => ?_, hone⟩, hmax⟩, hlen⟩, by rw [List.length_map, hlen]⟩, hsame.2⟩
      simpa [IngestionRun.clean] using (hall run hrun).2

theorem rank_injective {run run' : IngestionRun} (h : run ∈ s.runs) (h' : run' ∈ s.runs)
    (he : run.rank = run'.rank) : run = run' :=
  Table.eq_of_key h h' (congrArg (fun r => (ofLex r).2) he)

/-- The newest attempts of a group. -/
theorem mem_latest {key : SnapshotKey} {run : IngestionRun} :
    run ∈ (s.latestSequenceAttempt q).filter (·.snapshotKey == key) ↔
      Newest IngestionRun.part IngestionRun.rank (s.groupRuns q key) run := by
  rw [List.mem_filter, beq_iff_eq, mem_latestSequenceAttempt]
  constructor
  · rintro ⟨h, rfl⟩
    exact h
  · intro h
    obtain ⟨-, -, rfl⟩ := State.mem_groupRuns.mp h.1
    exact ⟨h, rfl⟩

theorem latest_parts_nodup (key : SnapshotKey) :
    (((s.latestSequenceAttempt q).filter (·.snapshotKey == key)).map (·.part)).Nodup := by
  refine List.Nodup.map_on (fun run hrun run' hrun' he => ?_) ?_
  · refine (mem_latest.mp hrun).unique (mem_latest.mp hrun') (fun a ha b hb hab => ?_) he
    exact rank_injective (State.mem_groupRuns.mp ha).1 (State.mem_groupRuns.mp hb).1 hab
  · have hrows : s.runs.rows.Nodup := s.runs.nodup.of_map _
    exact ((hrows.filter _).filter _).filter _

/-- A listed group is complete when its newest attempts are. -/
theorem groupComplete_latest (key : SnapshotKey) :
    groupComplete ((s.latestSequenceAttempt q).filter (·.snapshotKey == key)) = true ↔
      s.groupRuns q key ≠ [] ∧ ∃ n, NewestNumbered IngestionRun.part IngestionRun.rank
        (s.groupRuns q key) IngestionRun.count (·.clean = true) n := by
  have hnewest : ∀ run ∈ s.groupRuns q key, ∃ run', Newest IngestionRun.part IngestionRun.rank
      (s.groupRuns q key) run' ∧ run'.part = run.part := fun run hrun => exists_newest hrun
  rw [groupComplete_iff (fun run hrun => selects_sequence
    (State.mem_groupRuns.mp (mem_latest.mp hrun).1).2.1) (latest_parts_nodup key)]
  refine and_congr (not_congr ?_) (exists_congr fun n => and_congr ?_ ?_)
  · constructor
    · intro h
      refine List.eq_nil_iff_forall_not_mem.mpr fun run hrun => ?_
      obtain ⟨run', hrun', -⟩ := hnewest run hrun
      exact absurd (mem_latest.mpr hrun') (by rw [h]; exact List.not_mem_nil)
    · intro h
      refine List.eq_nil_iff_forall_not_mem.mpr fun run hrun => ?_
      have hmem := (mem_latest.mp hrun).1
      rw [h] at hmem
      cases hmem
  · refine forall_congr' fun k => iff_congr ?_ Iff.rfl
    simp only [List.mem_map, mem_latest]
    constructor
    · rintro ⟨run, hrun, hk⟩
      exact ⟨run, hrun.1, hk⟩
    · rintro ⟨run, hrun, hk⟩
      obtain ⟨run', hrun', hpart⟩ := hnewest run hrun
      exact ⟨run', hrun', hpart.trans hk⟩
  · exact forall_congr' fun run => by rw [mem_latest]

/-- The groups are those of the selected runs. -/
theorem mem_listSequencedSnapshotGroups {g : SequencedSnapshotGroup} :
    g ∈ s.listSequencedSnapshotGroups q ↔ s.groupRuns q g.key ≠ [] ∧
      g = aggregate g.key ((s.latestSequenceAttempt q).filter (·.snapshotKey == g.key)) := by
  unfold State.listSequencedSnapshotGroups
  rw [List.mem_mergeSort, List.mem_map]
  constructor
  · rintro ⟨key, hkey, rfl⟩
    obtain ⟨run, hrun, rfl⟩ := List.mem_map.mp (List.mem_dedup.mp hkey)
    exact ⟨List.ne_nil_of_mem (mem_latestSequenceAttempt.mp hrun).1, rfl⟩
  · rintro ⟨h0, hg⟩
    obtain ⟨run, hrun⟩ := List.exists_mem_of_ne_nil _ h0
    obtain ⟨run', hrun', -⟩ : ∃ run', Newest IngestionRun.part IngestionRun.rank
      (s.groupRuns q g.key) run' ∧ run'.part = run.part := exists_newest hrun
    obtain ⟨hmem, hkey⟩ := List.mem_filter.mp (mem_latest.mpr hrun')
    exact ⟨g.key, List.mem_dedup.mpr (List.mem_map.mpr ⟨run', hmem, beq_iff_eq.mp hkey⟩), hg.symm⟩

/-- A group is complete exactly when there is one `n` such that its parts are `1 .. n` and the
newest attempt of each declares `n` and was written in full. -/
theorem snapshot_groups (s : State) (q : SnapshotQuery) :
    (∀ run ∈ s.runs, q.selects run = true →
      ∃ g ∈ s.listSequencedSnapshotGroups q, g.key = run.snapshotKey) ∧
    ∀ g ∈ s.listSequencedSnapshotGroups q,
      (g.complete = true ↔ ∃ n,
        (∀ k, (∃ run ∈ s.groupRuns q g.key, run.sequence = some k) ↔ 1 ≤ k ∧ k ≤ n) ∧
        ∀ run ∈ s.groupRuns q g.key,
          (∀ later ∈ s.groupRuns q g.key, later.sequence = run.sequence →
            toLex (later.createdAt, later.runId) ≤ toLex (run.createdAt, run.runId)) →
          run.sequenceCount = some n ∧ run.status = .completed ∧
            run.totalRecords = run.successRecords ∧ run.failedRecords = 0) ∧
      ∀ run ∈ s.groupRuns q g.key,
        (∀ later ∈ s.groupRuns q g.key, later.sequence = run.sequence →
          toLex (later.createdAt, later.runId) ≤ toLex (run.createdAt, run.runId)) →
        run.status ≠ .completed → g.complete = false := by
  have hcomplete : ∀ g ∈ s.listSequencedSnapshotGroups q, g.complete = true ↔ ∃ n,
      NewestNumbered IngestionRun.part IngestionRun.rank (s.groupRuns q g.key)
        IngestionRun.count (·.clean = true) n := by
    intro g hg
    obtain ⟨h0, he⟩ := mem_listSequencedSnapshotGroups.mp hg
    rw [he]
    change groupComplete _ = true ↔ _
    rw [groupComplete_latest]
    exact ⟨fun h => h.2, fun h => ⟨h0, h⟩⟩
  have hnewest (key : SnapshotKey) (run : IngestionRun) (hrun : run ∈ s.groupRuns q key) :
      (∀ later ∈ s.groupRuns q key, later.sequence = run.sequence →
        toLex (later.createdAt, later.runId) ≤ toLex (run.createdAt, run.runId)) ↔
      Newest IngestionRun.part IngestionRun.rank (s.groupRuns q key) run := by
    have hseq (r : IngestionRun) (hr : r ∈ s.groupRuns q key) : r.sequence = some r.part :=
      (selects_sequence (State.mem_groupRuns.mp hr).2.1).1
    constructor
    · intro h
      exact ⟨hrun, fun later hl hp => h later hl (by rw [hseq later hl, hseq run hrun, hp])⟩
    · intro h later hl he
      rw [hseq later hl, hseq run hrun] at he
      exact h.2 later hl (Option.some.inj he)
  refine ⟨fun run hrun hsel => ?_, fun g hg => ⟨?_, fun run hrun hlast hstatus => ?_⟩⟩
  · refine ⟨aggregate run.snapshotKey
        ((s.latestSequenceAttempt q).filter (·.snapshotKey == run.snapshotKey)),
      mem_listSequencedSnapshotGroups.mpr ⟨?_, rfl⟩, rfl⟩
    exact List.ne_nil_of_mem (State.mem_groupRuns.mpr ⟨hrun, hsel, rfl⟩)
  · rw [hcomplete g hg]
    refine exists_congr fun n => and_congr (forall_congr' fun k => iff_congr ?_ Iff.rfl) ?_
    · refine exists_congr fun run => and_congr_right fun hrun => ?_
      rw [(selects_sequence (State.mem_groupRuns.mp hrun).2.1).1, Option.some.injEq]
    · have hclean (run : IngestionRun) (hrun : run ∈ s.groupRuns q g.key) :
          run.count = n ∧ run.clean = true ↔ run.sequenceCount = some n ∧ run.status = .completed ∧
            run.totalRecords = run.successRecords ∧ run.failedRecords = 0 := by
        rw [(selects_sequence (State.mem_groupRuns.mp hrun).2.1).2, Option.some.injEq]
        simp only [IngestionRun.clean, Bool.and_eq_true, beq_iff_eq, and_assoc]
      constructor
      · intro h run hrun hlast
        exact (hclean run hrun).mp (h run ((hnewest _ run hrun).mp hlast))
      · intro h run hrun
        exact (hclean run hrun.1).mpr (h run hrun.1 ((hnewest _ run hrun.1).mpr hrun))
  · refine Bool.eq_false_iff.mpr fun htrue => hstatus ?_
    obtain ⟨n, -, hn⟩ := (hcomplete g hg).mp htrue
    have hclean := (hn run ((hnewest _ run hrun).mp hlast)).2
    simp only [IngestionRun.clean, Bool.and_eq_true, beq_iff_eq] at hclean
    exact hclean.1.1

end FinDB.Plans
