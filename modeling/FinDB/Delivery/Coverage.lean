import FinDB.Lib.Civil
import FinDB.Lib.Truth

/-! # What a delivery covers

A run says which dates its delivery is about. Projections in memory ask one predicate,
queries over the run table another; the checks of the table keep them together. -/
namespace FinDB.Delivery
open FinDB.Lib

/-! ## The run table -/

/-- The columns of `ingestion_run` a batch fills. -/
structure BatchMetadata where
  batchDataDate : Option CivilDate
  deliveryMode : Option String
  coverageStartDate : Option CivilDate
  coverageEndDate : Option CivilDate
  snapshotId : Option String
  dailyUpdateId : Option String
  sequence : Option Nat
  sequenceCount : Option Nat
deriving DecidableEq

/-- No metadata: every column is null. -/
def BatchMetadata.empty : BatchMetadata := ⟨none, none, none, none, none, none, none, none⟩

section
open Truth
variable (m : BatchMetadata)

/-- `minute_identity_coherent`. -/
def BatchMetadata.minuteIdentityCoherent : Truth :=
  or (and (isNull m.snapshotId) (and (isNull m.dailyUpdateId)
      (and (isNull m.sequence) (isNull m.sequenceCount))))
    (and (compare (· == ·) m.deliveryMode (some "sequenced_snapshot"))
      (and (isNotNull m.snapshotId) (and (isNotNull m.dailyUpdateId)
        (and (isNotNull m.sequence) (isNotNull m.sequenceCount)))))

/-- `minute_sequence_positive`. -/
def BatchMetadata.minuteSequencePositive : Truth :=
  or (isNull m.sequence) (compare (fun a b => decide (b ≤ a)) m.sequence (some 1))

/-- `minute_sequence_count_positive`. -/
def BatchMetadata.minuteSequenceCountPositive : Truth :=
  or (isNull m.sequenceCount) (compare (fun a b => decide (b ≤ a)) m.sequenceCount (some 1))

/-- `minute_sequence_order`. -/
def BatchMetadata.minuteSequenceOrder : Truth :=
  or (isNull m.sequence) (or (isNull m.sequenceCount)
    (compare (fun a b => decide (a ≤ b)) m.sequence m.sequenceCount))

/-- `coverage_dates_paired`. -/
def BatchMetadata.coverageDatesPaired : Truth :=
  or (and (isNull m.coverageStartDate) (isNull m.coverageEndDate))
    (and (isNotNull m.coverageStartDate) (isNotNull m.coverageEndDate))

/-- `coverage_date_order`. -/
def BatchMetadata.coverageDateOrder : Truth :=
  or (isNull m.coverageStartDate)
    (compare (fun a b => decide (a ≤ b)) m.coverageStartDate m.coverageEndDate)

/-- `backfill_coverage_end_matches_batch_date`. -/
def BatchMetadata.backfillCoverageEnd : Truth :=
  or (isDistinctFrom m.deliveryMode (some "backfill")) (or (isNull m.coverageEndDate)
    (compare (· == ·) m.coverageEndDate m.batchDataDate))

/-- The checks on these columns. -/
def BatchMetadata.checks : List Truth :=
  [m.minuteIdentityCoherent, m.minuteSequencePositive, m.minuteSequenceCountPositive,
    m.minuteSequenceOrder, m.coverageDatesPaired, m.coverageDateOrder, m.backfillCoverageEnd]

end

/-- A row the table admits. -/
structure IngestionRun extends BatchMetadata where
  admitted : ∀ check ∈ toBatchMetadata.checks, check.Admits

/-- The bounds of an admitted row come together. -/
theorem IngestionRun.paired (run : IngestionRun) :
    run.coverageStartDate = none ↔ run.coverageEndDate = none := by
  have h : run.coverageDatesPaired.Admits := run.admitted _ (by simp [BatchMetadata.checks])
  unfold BatchMetadata.coverageDatesPaired at h
  rw [Truth.admits_or, Truth.admits_and, Truth.admits_and, Truth.admits_isNull, Truth.admits_isNull,
    Truth.admits_isNotNull, Truth.admits_isNotNull] at h
  rcases h with ⟨hstart, hstop⟩ | ⟨hstart, hstop⟩
  · exact iff_of_true hstart hstop
  · exact iff_of_false hstart hstop

/-! ## The two predicates -/

inductive DeliveryExpectationMode where
  | fullSnapshot | incremental | backfill | sequencedSnapshot
deriving DecidableEq, Repr

def DeliveryExpectationMode.value : DeliveryExpectationMode → String
  | .fullSnapshot => "full_snapshot"
  | .incremental => "incremental"
  | .backfill => "backfill"
  | .sequencedSnapshot => "sequenced_snapshot"

/-- `_delivery_mode_value` of a column: what is no string is written out. -/
def deliveryModeValue (mode : Option String) : String := mode.getD "None"

/-- `compatible_delivery_modes`. -/
def compatibleDeliveryModes (expectedMode : DeliveryExpectationMode) : List String :=
  if expectedMode.value = DeliveryExpectationMode.incremental.value then
    [DeliveryExpectationMode.incremental.value, DeliveryExpectationMode.backfill.value]
  else [expectedMode.value]

/-- `delivery_run_covers_date`. -/
def deliveryRunCoversDate (run : BatchMetadata) (expectedMode : DeliveryExpectationMode)
    (expectedDate : CivilDate) : Bool :=
  let mode := expectedMode.value
  let runMode := deliveryModeValue run.deliveryMode
  let batchDate := run.batchDataDate
  if runMode ∉ compatibleDeliveryModes expectedMode then false
  else if mode ≠ DeliveryExpectationMode.incremental.value then
    runMode == mode && batchDate == some expectedDate
  else if runMode = DeliveryExpectationMode.incremental.value then batchDate == some expectedDate
  else match run.coverageStartDate, run.coverageEndDate with
    | some coverageStart, some coverageEnd =>
      if some coverageEnd ≠ batchDate then false
      else decide (coverageStart ≤ expectedDate ∧ expectedDate ≤ coverageEnd)
    | _, _ => batchDate == some expectedDate

section
open Truth

/-- `delivery_run_coverage_condition`; the expected date may be a column. -/
def deliveryRunCoverageCondition (run : BatchMetadata) (expectedMode : DeliveryExpectationMode)
    (expectedDate : Option CivilDate) : Truth :=
  let mode := expectedMode.value
  let exact_ := and (compare (· == ·) run.deliveryMode (some mode))
    (compare (· == ·) run.batchDataDate expectedDate)
  if mode ≠ DeliveryExpectationMode.incremental.value then exact_
  else
    let backfill := compare (· == ·) run.deliveryMode (some DeliveryExpectationMode.backfill.value)
    let unboundedBackfill := and backfill (and (isNull run.coverageStartDate)
      (and (isNull run.coverageEndDate) (compare (· == ·) run.batchDataDate expectedDate)))
    let rangedBackfill := and backfill (and (isNotNull run.coverageStartDate)
      (and (isNotNull run.coverageEndDate)
        (and (compare (· == ·) run.coverageEndDate run.batchDataDate)
          (and (compare (fun a b => decide (a ≤ b)) run.coverageStartDate expectedDate)
            (compare (fun a b => decide (b ≤ a)) run.coverageEndDate expectedDate)))))
    or exact_ (or unboundedBackfill rangedBackfill)

end

/-! ## They agree -/

/-- What both of them say. -/
def Covers (run : BatchMetadata) (expectedMode : DeliveryExpectationMode)
    (expectedDate : CivilDate) : Prop :=
  run.deliveryMode = some expectedMode.value ∧ run.batchDataDate = some expectedDate ∨
  expectedMode = .incremental ∧ run.deliveryMode = some DeliveryExpectationMode.backfill.value ∧
    (run.coverageStartDate = none ∧ run.coverageEndDate = none ∧
        run.batchDataDate = some expectedDate ∨
      ∃ start ∈ run.coverageStartDate, ∃ stop ∈ run.coverageEndDate,
        run.batchDataDate = some stop ∧ start ≤ expectedDate ∧ expectedDate ≤ stop)

theorem selects_equals {α : Type} [DecidableEq α] {a : Option α} {b : α} :
    (Truth.compare (· == ·) a (some b)).Selects ↔ a = some b := by
  rw [Truth.selects_compare]
  constructor
  · rintro ⟨x, hx, y, hy, hxy⟩
    cases hy
    rw [Option.mem_def.mp hx, eq_of_beq hxy]
  · rintro rfl
    exact ⟨b, rfl, b, rfl, beq_self_eq_true b⟩

variable {expectedMode : DeliveryExpectationMode} {expectedDate : CivilDate}

theorem condition_selects_iff {run : BatchMetadata} :
    (deliveryRunCoverageCondition run expectedMode (some expectedDate)).Selects ↔
      Covers run expectedMode expectedDate := by
  have hexact : (Truth.and (Truth.compare (· == ·) run.deliveryMode (some expectedMode.value))
      (Truth.compare (· == ·) run.batchDataDate (some expectedDate))).Selects ↔
      run.deliveryMode = some expectedMode.value ∧ run.batchDataDate = some expectedDate := by
    rw [Truth.selects_and, selects_equals, selects_equals]
  unfold deliveryRunCoverageCondition Covers
  simp only
  split
  · rename_i hmode
    have hother : expectedMode ≠ .incremental := fun h => hmode (by rw [h])
    rw [hexact]
    exact ⟨Or.inl, fun h => h.resolve_right fun hinc => hother hinc.1⟩
  · rename_i hmode
    have hincremental : expectedMode = .incremental := by
      cases expectedMode with
      | incremental => rfl
      | fullSnapshot => exact absurd (by decide) hmode
      | backfill => exact absurd (by decide) hmode
      | sequencedSnapshot => exact absurd (by decide) hmode
    rw [Truth.selects_or, hexact]
    refine or_congr Iff.rfl ?_
    simp only [Truth.selects_or, Truth.selects_and, selects_equals, Truth.selects_isNull,
      Truth.selects_isNotNull]
    simp only [Truth.selects_compare]
    refine ⟨?_, ?_⟩
    · rintro (⟨hbackfill, hstart, hstop, hdate⟩ |
        ⟨hbackfill, _, _, ⟨stop, hstop, date, hdate, heq⟩, ⟨start, hstart, d, hd, hle⟩,
          stop', hstop', d', hd', hle'⟩)
      · exact ⟨hincremental, hbackfill, Or.inl ⟨hstart, hstop, hdate⟩⟩
      · cases hd
        cases hd'
        cases (Option.mem_unique hstop hstop')
        refine ⟨hincremental, hbackfill, Or.inr ⟨start, hstart, stop, hstop, ?_,
          of_decide_eq_true hle, of_decide_eq_true hle'⟩⟩
        rw [eq_of_beq heq]
        exact hdate
    · rintro ⟨_, hbackfill, ⟨hstart, hstop, hdate⟩ | ⟨start, hstart, stop, hstop, hdate, hle, hle'⟩⟩
      · exact Or.inl ⟨hbackfill, hstart, hstop, hdate⟩
      · have hnotnull : ∀ {o : Option CivilDate} {d : CivilDate}, d ∈ o → o ≠ none := by
          rintro o d hd rfl
          cases hd
        exact Or.inr ⟨hbackfill, hnotnull hstart, hnotnull hstop,
          ⟨stop, hstop, stop, hdate, beq_self_eq_true stop⟩,
          ⟨start, hstart, expectedDate, rfl, decide_eq_true hle⟩,
          ⟨stop, hstop, expectedDate, rfl, decide_eq_true hle'⟩⟩

/-- A mode of an expectation is never what a null column is written as. -/
theorem deliveryModeValue_eq {column : Option String} :
    deliveryModeValue column = expectedMode.value ↔ column = some expectedMode.value := by
  cases column with
  | none => cases expectedMode <;> exact iff_of_false (by decide) (by decide)
  | some mode => exact ⟨congrArg some, Option.some.inj⟩

/-- A backfill covers its bounds, or its own date without any. -/
theorem covers_backfill_iff {run : BatchMetadata}
    (hpaired : run.coverageStartDate = none ↔ run.coverageEndDate = none) :
    (match run.coverageStartDate, run.coverageEndDate with
      | some coverageStart, some coverageEnd =>
        if some coverageEnd ≠ run.batchDataDate then false
        else decide (coverageStart ≤ expectedDate ∧ expectedDate ≤ coverageEnd)
      | _, _ => run.batchDataDate == some expectedDate) = true ↔
      (run.coverageStartDate = none ∧ run.coverageEndDate = none ∧
        run.batchDataDate = some expectedDate ∨
      ∃ start ∈ run.coverageStartDate, ∃ stop ∈ run.coverageEndDate,
        run.batchDataDate = some stop ∧ start ≤ expectedDate ∧ expectedDate ≤ stop) := by
  cases hstart : run.coverageStartDate with
  | none =>
    rw [hpaired.mp hstart]
    simp
  | some start =>
    cases hstop : run.coverageEndDate with
    | none =>
      rw [hpaired.mpr hstop] at hstart
      cases hstart
    | some stop =>
      by_cases hdate : some stop = run.batchDataDate
      · simp [← hdate]
      · have hne : run.batchDataDate ≠ some stop := fun h => hdate h.symm
        simp [hdate, hne]

theorem covers_iff {run : BatchMetadata}
    (hpaired : run.coverageStartDate = none ↔ run.coverageEndDate = none) :
    deliveryRunCoversDate run expectedMode expectedDate = true ↔
      Covers run expectedMode expectedDate := by
  unfold deliveryRunCoversDate Covers compatibleDeliveryModes
  simp only
  by_cases hincremental : expectedMode = .incremental
  · subst hincremental
    rw [if_pos rfl, if_neg (not_not_intro rfl)]
    simp only [List.mem_pair, deliveryModeValue_eq]
    by_cases hinc : run.deliveryMode = some DeliveryExpectationMode.incremental.value
    · have hback : run.deliveryMode ≠ some DeliveryExpectationMode.backfill.value := by
        rw [hinc]
        decide
      rw [if_neg (not_not_intro (Or.inl hinc)), if_pos hinc, beq_iff_eq]
      exact ⟨fun h => Or.inl ⟨hinc, h⟩,
        fun h => h.elim And.right fun h => absurd h.2.1 hback⟩
    · by_cases hback : run.deliveryMode = some DeliveryExpectationMode.backfill.value
      · rw [if_neg (not_not_intro (Or.inr hback)), if_neg hinc]
        refine Iff.trans ?_ (Iff.symm (or_iff_right fun h => hinc h.1))
        refine Iff.trans ?_ (Iff.symm (and_iff_right trivial))
        refine Iff.trans ?_ (Iff.symm (and_iff_right hback))
        exact covers_backfill_iff hpaired
      · rw [if_pos (not_or.mpr ⟨hinc, hback⟩)]
        exact iff_of_false (fun h => by cases h)
          fun h => h.elim (fun h => hinc h.1) fun h => hback h.2.1
  · have hmode : expectedMode.value ≠ DeliveryExpectationMode.incremental.value := by
      cases expectedMode with
      | incremental => exact absurd rfl hincremental
      | fullSnapshot => decide
      | backfill => decide
      | sequencedSnapshot => decide
    rw [if_neg hmode]
    simp only [List.mem_singleton, deliveryModeValue_eq]
    refine Iff.trans ?_ (Iff.symm (or_iff_left fun h => hincremental h.1))
    by_cases hrun : run.deliveryMode = some expectedMode.value
    · rw [if_neg (not_not_intro hrun), if_pos hmode, Bool.and_eq_true, beq_iff_eq, beq_iff_eq,
        deliveryModeValue_eq]
    · rw [if_pos hrun]
      exact iff_of_false (fun h => by cases h) fun h => hrun h.1

/-- **The coverage predicates agree.** For every row the run table admits, the predicate
in memory holds exactly when the query selects the row. -/
theorem covers_iff_selected (run : IngestionRun) (expectedMode : DeliveryExpectationMode)
    (expectedDate : CivilDate) :
    deliveryRunCoversDate run.toBatchMetadata expectedMode expectedDate = true ↔
      (deliveryRunCoverageCondition run.toBatchMetadata expectedMode (some expectedDate)).Selects :=
  (covers_iff run.paired).trans condition_selects_iff.symm

end FinDB.Delivery
