import FinDB.Delivery.Coverage
import FinDB.Normalize.Clean

/-! # The identity of a rerun

A run takes its batch columns from the typed request, a rerun takes them from the stored
document, which it reads as untrusted. A retained document is validated again first, and
reads back as it was stored. -/
namespace FinDB.Delivery
open FinDB.Lib FinDB.Normalize

/-! ## Requests -/

/-- The batch of an accepted request: daily and futures contracts share one model. -/
inductive AcceptedBatch (lang : Language) where
  | ingress (batch : IngressBatch)
  | minute (batch : MarketMinuteBatch lang)

section
variable {lang : Language}

def AcceptedBatch.dump : AcceptedBatch lang → Json
  | .ingress b => b.dump
  | .minute b => b.dump

/-- `request.payload.batch.data_date`. -/
def AcceptedBatch.dataDate : AcceptedBatch lang → CivilDate
  | .ingress b => b.dataDate
  | .minute b => b.dataDate

/-- `delivery_mode` of a batch, or its value. -/
def AcceptedBatch.deliveryMode : AcceptedBatch lang → String
  | .ingress b => b.deliveryMode.name
  | .minute _ => "sequenced_snapshot"

def AcceptedBatch.coverageStartDate : AcceptedBatch lang → Option CivilDate
  | .ingress b => b.coverageStartDate
  | .minute b => some b.coverageStartDate

def AcceptedBatch.coverageEndDate : AcceptedBatch lang → Option CivilDate
  | .ingress b => b.coverageEndDate
  | .minute b => some b.coverageEndDate

/-- The schema the contract of a batch has; daily and futures contracts have others. -/
def AcceptedBatch.fits (schemaId : String) : AcceptedBatch lang → Prop
  | .ingress _ => schemaId ≠ "market_minute"
  | .minute _ => schemaId = "market_minute"

/-- What `ingest_contract` accepts, as far as a rerun reads it: `rest` are the rows and
what else the document of the payload has. -/
structure AcceptedRequest (lang : Language) where
  datasetKey : String
  schemaId : String
  batch : AcceptedBatch lang
  rest : List (String × Json)
  schema : batch.fits schemaId

/-- `request.payload.model_dump(mode="json")`; the batch is the first key. -/
def AcceptedRequest.payload (r : AcceptedRequest lang) : Json := .obj (("batch", r.batch.dump) :: r.rest)

/-! ## The run -/

/-- `_minute_sequence_identity`, over columns that are null without it. -/
def minuteSequenceIdentity (batch : AcceptedBatch lang) (m : BatchMetadata) : BatchMetadata :=
  match batch with
  | .ingress _ => m
  | .minute b => { m with
      snapshotId := some b.snapshotId.text
      dailyUpdateId := some b.dailyUpdateId.text
      sequence := some b.sequence
      sequenceCount := some b.sequenceCount }

/-- The batch columns of the run `ingest_contract` creates. -/
def ingestContractMetadata (r : AcceptedRequest lang) : BatchMetadata :=
  minuteSequenceIdentity r.batch { BatchMetadata.empty with
    batchDataDate := some r.batch.dataDate
    deliveryMode := some r.batch.deliveryMode
    coverageStartDate := r.batch.coverageStartDate
    coverageEndDate := r.batch.coverageEndDate }

end

/-! ## The rerun -/

section
variable (lang : Language) (batch : List (String × Json))

/-- A date in a field of ten characters. -/
def dateField (name : String) : Option CivilDate :=
  match item name batch with
  | .str s => if s.length = 10 then CivilDate.fromisoformat s else none
  | _ => none

/-- `bounded_date_value`; `none` is `invalid_date`. -/
def boundedDateValue (name : String) : Option (Option CivilDate) :=
  match item name batch with
  | .null => some none
  | _ => (dateField batch name).map some

/-- `bounded_identifier`. -/
def boundedIdentifier (name : String) : Option String :=
  match item name batch with
  | .str s =>
    let value := lang.strip s
    if 1 ≤ value.length ∧ value.length ≤ 100 then some value else none
  | _ => none

/-- `bounded_sequence`. -/
def boundedSequence (name : String) : Option Nat :=
  match item name batch with
  | .int n => if 1 ≤ n ∧ n ≤ 99999 then some n.toNat else none
  | _ => none

/-- The tests on the bounds of a batch. -/
def coverageValid (mode : String) (date : CivilDate) : Option CivilDate → Option CivilDate → Bool
  | none, none => true
  | some start, some stop => decide (start ≤ stop) && (mode != "backfill" || stop == date)
  | _, _ => false

/-- The metadata of a batch; `none` is the empty projection. -/
def rerunBatch (datasetKey schemaId : String) : Option BatchMetadata := do
  let mode ← match item "delivery_mode" batch with
    | .str mode => some (lang.strip mode)
    | _ => none
  let parsedDate ← dateField batch "data_date"
  let coverageStart ← boundedDateValue batch "coverage_start_date"
  let coverageEnd ← boundedDateValue batch "coverage_end_date"
  if coverageValid mode parsedDate coverageStart coverageEnd then
    let m := { BatchMetadata.empty with
      batchDataDate := some parsedDate
      deliveryMode := some mode
      coverageStartDate := coverageStart
      coverageEndDate := coverageEnd }
    if mode ∈ ["full_snapshot", "incremental", "backfill"] then some m
    else if mode ≠ "sequenced_snapshot" ∨
        ¬(schemaId = "market_minute" ∨ datasetKey ∈ ["tw_equity_minute", "tw_etf_minute"]) then none
    else do
      let snapshotId ← boundedIdentifier lang batch "snapshot_id"
      let dailyUpdateId ← boundedIdentifier lang batch "daily_update_id"
      let sequence ← boundedSequence batch "sequence"
      let sequenceCount ← boundedSequence batch "sequence_count"
      if sequence ≤ sequenceCount then
        some { m with
          snapshotId := some snapshotId
          dailyUpdateId := some dailyUpdateId
          sequence := some sequence
          sequenceCount := some sequenceCount }
      else none
  else none

end

/-- `_rerun_batch_metadata`; without a projection every column stays null. -/
def rerunBatchMetadata (lang : Language) (payload : Json) (datasetKey schemaId : String) :
    BatchMetadata :=
  match payload with
  | .obj fields =>
    match item "batch" fields with
    | .obj batch => (rerunBatch lang batch datasetKey schemaId).getD BatchMetadata.empty
    | _ => BatchMetadata.empty
  | _ => BatchMetadata.empty

/-! ## What is stored reads back -/

/-- The fields every batch writes. -/
structure Written (fields : List (String × Json)) (mode : String) (date : CivilDate)
    (start stop : Option CivilDate) : Prop where
  mode : item "delivery_mode" fields = .str mode
  date : item "data_date" fields = dateJson date
  start : item "coverage_start_date" fields = nullable dateJson start
  stop : item "coverage_end_date" fields = nullable dateJson stop

section
variable {lang : Language} {fields : List (String × Json)}

theorem dateField_eq {name : String} {d : CivilDate} (h : item name fields = dateJson d) :
    dateField fields name = some d := by
  have hlen : d.isoformat.length = 10 := by
    unfold CivilDate.isoformat
    rw [String.length_ofList, CivilDate.length_isoChars]
  unfold dateField
  rw [h]
  simp only [dateJson, if_pos hlen, CivilDate.fromisoformat_isoformat]

theorem boundedDateValue_eq {name : String} {d : Option CivilDate}
    (h : item name fields = nullable dateJson d) : boundedDateValue fields name = some d := by
  unfold boundedDateValue
  cases d with
  | none =>
    rw [h]
    rfl
  | some d =>
    have hdate := dateField_eq h
    rw [h]
    simp only [nullable, dateJson, hdate, Option.map_some]

theorem boundedIdentifier_eq {name text : String} (h : item name fields = .str text) :
    boundedIdentifier lang fields name =
      if 1 ≤ (lang.strip text).length ∧ (lang.strip text).length ≤ 100 then some (lang.strip text)
      else none := by
  unfold boundedIdentifier
  rw [h]

theorem boundedSequence_eq {name : String} {n : Nat} (h : item name fields = natJson n)
    (hn : 1 ≤ n ∧ n ≤ 99999) : boundedSequence fields name = some n := by
  have hint : 1 ≤ (n : Int) ∧ (n : Int) ≤ 99999 := by omega
  unfold boundedSequence
  rw [h]
  simp only [natJson, if_pos hint, Int.toNat_natCast]

/-- A mode of a contract has nothing to strip. -/
theorem strip_mode (m : DeliveryMode) : lang.strip m.name = m.name :=
  lang.strip_eq m.name (by cases m <;> decide)

theorem mode_mem (m : DeliveryMode) : m.name ∈ ["full_snapshot", "incremental", "backfill"] := by
  cases m <;> decide

/-- The bounds of an accepted batch pass. -/
theorem coverageValid_ingress (b : IngressBatch) :
    coverageValid b.deliveryMode.name b.dataDate b.coverageStartDate b.coverageEndDate = true := by
  obtain ⟨hpaired, hordered⟩ := b.coverage
  unfold coverageValid
  cases hstart : b.coverageStartDate with
  | none =>
    rw [hstart] at hpaired
    rw [Option.isNone_iff_eq_none.mp hpaired.symm]
  | some start =>
    cases hstop : b.coverageEndDate with
    | none =>
      rw [hstart, hstop] at hpaired
      cases hpaired
    | some stop =>
      have hle := hordered start hstart stop hstop
      rw [Bool.and_eq_true, Bool.or_eq_true, decide_eq_true_iff, bne_iff_ne, beq_iff_eq]
      refine ⟨hle, ?_⟩
      by_cases hmode : b.deliveryMode = .backfill
      · exact Or.inr (b.backfill hmode stop hstop).symm
      · refine Or.inl fun hname => hmode ?_
        cases hm : b.deliveryMode with
        | backfill => rfl
        | fullSnapshot =>
          rw [hm] at hname
          exact absurd hname (by decide)
        | incremental =>
          rw [hm] at hname
          exact absurd hname (by decide)

theorem rerunBatch_ingress {b : IngressBatch} {datasetKey schemaId : String}
    (h : Written fields b.deliveryMode.name b.dataDate b.coverageStartDate b.coverageEndDate) :
    rerunBatch lang fields datasetKey schemaId = some { BatchMetadata.empty with
      batchDataDate := some b.dataDate
      deliveryMode := some b.deliveryMode.name
      coverageStartDate := b.coverageStartDate
      coverageEndDate := b.coverageEndDate } := by
  have hmode := mode_mem b.deliveryMode
  unfold rerunBatch
  rw [h.mode, dateField_eq h.date, boundedDateValue_eq h.start, boundedDateValue_eq h.stop]
  simp only [Option.bind_eq_bind, Option.bind_some, strip_mode, coverageValid_ingress, if_true, if_pos hmode]

/-- The bounds of a minute batch are its date. -/
theorem coverageValid_minute (b : MarketMinuteBatch lang) :
    coverageValid "sequenced_snapshot" b.dataDate (some b.coverageStartDate) (some b.coverageEndDate) =
      true := by
  rw [b.coverage.1, b.coverage.2]
  unfold coverageValid
  simp

/-- The identity of a minute batch, in a document. -/
structure Identified (fields : List (String × Json)) (b : MarketMinuteBatch lang) : Prop where
  snapshotId : item "snapshot_id" fields = .str b.snapshotId.text
  dailyUpdateId : item "daily_update_id" fields = .str b.dailyUpdateId.text
  sequence : item "sequence" fields = natJson b.sequence
  sequenceCount : item "sequence_count" fields = natJson b.sequenceCount

/-- A rerun reads the identity of a minute batch with its identifiers stripped. -/
theorem rerunBatch_minute {b : MarketMinuteBatch lang} {datasetKey : String}
    (h : Written fields "sequenced_snapshot" b.dataDate (some b.coverageStartDate)
      (some b.coverageEndDate)) (hid : Identified fields b) :
    rerunBatch lang fields datasetKey "market_minute" =
      (boundedIdentifier lang fields "snapshot_id").bind fun snapshotId =>
        (boundedIdentifier lang fields "daily_update_id").bind fun dailyUpdateId =>
          some ⟨some b.dataDate, some "sequenced_snapshot", some b.coverageStartDate,
            some b.coverageEndDate, some snapshotId, some dailyUpdateId, some b.sequence,
            some b.sequenceCount⟩ := by
  obtain ⟨hlow, horder, hhigh⟩ := b.sequences
  have hstrip : lang.strip "sequenced_snapshot" = "sequenced_snapshot" := lang.strip_eq _ (by decide)
  have hother : "sequenced_snapshot" ∉ ["full_snapshot", "incremental", "backfill"] := by decide
  unfold rerunBatch
  rw [h.mode, dateField_eq h.date, boundedDateValue_eq h.start, boundedDateValue_eq h.stop,
    boundedSequence_eq hid.sequence ⟨hlow, by omega⟩, boundedSequence_eq hid.sequenceCount ⟨by omega, hhigh⟩]
  simp only [Option.bind_eq_bind, Option.bind_some, hstrip, coverageValid_minute, if_true,
    if_neg hother, ne_eq, not_true_eq_false, true_or, or_false, if_false, if_pos horder]

/-! ## The same identity -/

/-- Identifiers that `str.strip` leaves alone. -/
def AcceptedBatch.IdentifiersKept : AcceptedBatch lang → Prop
  | .ingress _ => True
  | .minute b => lang.strip b.snapshotId.text = b.snapshotId.text ∧
      lang.strip b.dailyUpdateId.text = b.dailyUpdateId.text

theorem boundedIdentifier_kept {name : String} {id : BoundedText 1 100}
    (h : item name fields = .str id.text) :
    boundedIdentifier lang fields name = some id.text ↔ lang.strip id.text = id.text := by
  rw [boundedIdentifier_eq h]
  constructor
  · intro hsome
    split at hsome
    · exact Option.some.inj hsome
    · cases hsome
  · intro hkept
    rw [hkept, if_pos id.bounds]

theorem ingress_written (b : IngressBatch) : ∃ fields, b.dump = .obj fields ∧
    Written fields b.deliveryMode.name b.dataDate b.coverageStartDate b.coverageEndDate :=
  ⟨_, rfl, rfl, rfl, rfl, rfl⟩

theorem minute_written (b : MarketMinuteBatch lang) : ∃ fields, b.dump = .obj fields ∧
    Written fields "sequenced_snapshot" b.dataDate (some b.coverageStartDate)
      (some b.coverageEndDate) ∧ Identified fields b :=
  ⟨_, rfl, ⟨rfl, rfl, rfl, rfl⟩, rfl, rfl, rfl, rfl⟩

/-- The batch of a stored document. -/
theorem rerunBatchMetadata_obj {rest : List (String × Json)} {datasetKey schemaId : String} :
    rerunBatchMetadata lang (.obj (("batch", .obj fields) :: rest)) datasetKey schemaId =
      (rerunBatch lang fields datasetKey schemaId).getD BatchMetadata.empty := rfl

/-- **A rerun keeps the delivery's identity** exactly when `str.strip` leaves the
identifiers of a minute batch alone. -/
theorem rerun_keeps_identity_iff (r : AcceptedRequest lang) :
    rerunBatchMetadata lang r.payload r.datasetKey r.schemaId = ingestContractMetadata r ↔
      r.batch.IdentifiersKept := by
  obtain ⟨datasetKey, schemaId, batch, rest, hschema⟩ := r
  cases batch with
  | ingress b =>
    obtain ⟨fields, hdump, hwritten⟩ := ingress_written b
    refine iff_of_true ?_ trivial
    unfold AcceptedRequest.payload AcceptedBatch.dump
    simp only [hdump]
    rw [rerunBatchMetadata_obj, rerunBatch_ingress hwritten]
    rfl
  | minute b =>
    obtain rfl : schemaId = "market_minute" := hschema
    obtain ⟨fields, hdump, hwritten, hid⟩ := minute_written b
    unfold AcceptedRequest.payload AcceptedBatch.dump
    simp only [hdump]
    rw [rerunBatchMetadata_obj, rerunBatch_minute hwritten hid]
    unfold ingestContractMetadata minuteSequenceIdentity AcceptedBatch.IdentifiersKept
    simp only
    rw [← boundedIdentifier_kept hid.snapshotId, ← boundedIdentifier_kept hid.dailyUpdateId]
    constructor
    · intro hsame
      cases hs : boundedIdentifier lang fields "snapshot_id" with
      | none =>
        rw [hs] at hsame
        exact absurd (congrArg BatchMetadata.snapshotId hsame) (by simp [BatchMetadata.empty])
      | some s =>
        cases hd : boundedIdentifier lang fields "daily_update_id" with
        | none =>
          rw [hs, hd] at hsame
          exact absurd (congrArg BatchMetadata.snapshotId hsame) (by simp [BatchMetadata.empty])
        | some d =>
          rw [hs, hd] at hsame
          exact ⟨congrArg BatchMetadata.snapshotId hsame, congrArg BatchMetadata.dailyUpdateId hsame⟩
    · rintro ⟨hs, hd⟩
      rw [hs, hd]
      rfl

end

/-! ## The table admits it -/

section
open Truth
variable {lang : Language}

theorem bounds_admitted {m : BatchMetadata}
    (hpaired : m.coverageStartDate = none ↔ m.coverageEndDate = none)
    (hordered : ∀ start ∈ m.coverageStartDate, ∀ stop ∈ m.coverageEndDate, start ≤ stop)
    (hbackfill : m.deliveryMode = some "backfill" → ∀ stop ∈ m.coverageEndDate,
      ∀ date ∈ m.batchDataDate, stop = date) :
    m.coverageDatesPaired.Admits ∧ m.coverageDateOrder.Admits ∧ m.backfillCoverageEnd.Admits := by
  refine ⟨?_, ?_, ?_⟩
  · unfold BatchMetadata.coverageDatesPaired
    simp only [admits_or, admits_and, admits_isNull, admits_isNotNull]
    by_cases h : m.coverageStartDate = none
    · exact Or.inl ⟨h, hpaired.mp h⟩
    · exact Or.inr ⟨h, fun hstop => h (hpaired.mpr hstop)⟩
  · unfold BatchMetadata.coverageDateOrder
    rw [admits_or, admits_compare]
    exact Or.inr fun start hstart stop hstop => decide_eq_true (hordered start hstart stop hstop)
  · unfold BatchMetadata.backfillCoverageEnd
    rw [admits_or, admits_or, admits_isDistinctFrom, admits_compare]
    by_cases h : m.deliveryMode = some "backfill"
    · exact Or.inr (Or.inr fun stop hstop date hdate => beq_iff_eq.mpr (hbackfill h stop hstop date hdate))
    · exact Or.inl h

/-- The run of an accepted request is a row the table admits. -/
theorem ingestContract_admitted (r : AcceptedRequest lang) :
    ∀ check ∈ (ingestContractMetadata r).checks, check.Admits := by
  obtain ⟨datasetKey, schemaId, batch, rest, hschema⟩ := r
  simp only [BatchMetadata.checks, List.forall_mem_cons, List.not_mem_nil, false_implies,
    implies_true, and_true]
  cases batch with
  | ingress b =>
    have hnull : ∀ {t : Truth}, (or (isNull (none : Option Nat)) t).Admits := fun {t} =>
      admits_or.mpr (Or.inl (admits_isNull.mpr rfl))
    refine ⟨?_, hnull, hnull, hnull, bounds_admitted ?_ b.coverage.2 ?_⟩
    · refine admits_or.mpr (Or.inl ?_)
      simp only [admits_and, admits_isNull]
      exact ⟨rfl, rfl, rfl, rfl⟩
    · refine ⟨fun h => ?_, fun h => ?_⟩
      · exact Option.isNone_iff_eq_none.mp (b.coverage.1.symm.trans (Option.isNone_iff_eq_none.mpr h))
      · exact Option.isNone_iff_eq_none.mp (b.coverage.1.trans (Option.isNone_iff_eq_none.mpr h))
    · intro hmode stop hstop date hdate
      cases hdate
      refine (b.backfill ?_ stop hstop).symm
      have hname : b.deliveryMode.name = "backfill" := Option.some.inj hmode
      cases hm : b.deliveryMode with
      | backfill => rfl
      | fullSnapshot => exact absurd (hm ▸ hname) (by decide)
      | incremental => exact absurd (hm ▸ hname) (by decide)
  | minute b =>
    obtain ⟨hlow, horder, hhigh⟩ := b.sequences
    have hmode : (Truth.compare (· == ·) (some "sequenced_snapshot")
        (some "sequenced_snapshot")).Admits := by decide
    have hbelow : ∀ {n m : Nat} {f : Nat → Nat → Bool}, f n m = true →
        (Truth.compare f (some n) (some m)).Admits := fun h => admits_compare.mpr (by
      rintro _ ⟨⟩ _ ⟨⟩
      exact h)
    refine ⟨?_, ?_, ?_, ?_, bounds_admitted ?_ ?_ ?_⟩
    · refine admits_or.mpr (Or.inr ?_)
      simp only [admits_and, admits_isNotNull]
      exact ⟨hmode, Option.some_ne_none _, Option.some_ne_none _, Option.some_ne_none _,
        Option.some_ne_none _⟩
    · exact admits_or.mpr (Or.inr (hbelow (decide_eq_true hlow)))
    · exact admits_or.mpr (Or.inr (hbelow (decide_eq_true (hlow.trans horder))))
    · exact admits_or.mpr (Or.inr (admits_or.mpr (Or.inr (hbelow (decide_eq_true horder)))))
    · exact iff_of_false (fun h => by cases h) fun h => by cases h
    · rintro _ ⟨⟩ _ ⟨⟩
      rw [b.coverage.1, b.coverage.2]
    · intro hbackfill
      exact absurd (Option.some.inj hbackfill)
        (show "sequenced_snapshot" ≠ "backfill" by decide)

/-- The row of an accepted request. -/
def AcceptedRequest.run (r : AcceptedRequest lang) : IngestionRun where
  toBatchMetadata := ingestContractMetadata r
  admitted := ingestContract_admitted r

end

/-! ## An identifier that is stripped -/

/-- The digests here are all the same. -/
def zeroDigest : String := String.ofList (List.replicate 64 '0')

def zeroLanguage : Language := { asciiLanguage with sha256 := fun _ => zeroDigest }

theorem separatorDate_valid :
    (1 ≤ 2024 ∧ 2024 ≤ 9999) ∧ (1 ≤ 1 ∧ 1 ≤ 12) ∧ 1 ≤ 2 ∧ 2 ≤ monthDays 2024 1 := by
  decide

/-- A minute batch without rows whose snapshot starts with a separator. -/
def separatorBatch : MarketMinuteBatch zeroLanguage where
  dataDate := ⟨2024, 1, 2, separatorDate_valid⟩
  declaredRecordCount := 0
  sourceRawRef := none
  sourceRawSha256 := none
  rawSha256 := rawSha256_none
  coverageStartDate := ⟨2024, 1, 2, separatorDate_valid⟩
  coverageEndDate := ⟨2024, 1, 2, separatorDate_valid⟩
  snapshotId := ⟨"s1", by decide⟩
  dailyUpdateId := ⟨"u1", by decide⟩
  universeId := ⟨"tw", by decide⟩
  symbolsSha256 := zeroDigest
  sequence := 1
  sequenceCount := 1
  providerUsageBefore := none
  providerUsageAfter := none
  anomalies := []
  symbolsSha256Hex := by decide +kernel
  sequences := by decide
  coverage := ⟨rfl, rfl⟩
  usage := ⟨rfl, fun _ h => by cases h⟩
  anomalyCount := by decide

/-- Its payload: one symbol, of which no data was expected. -/
def separatorPayload : MarketMinutePayload zeroLanguage defaultLimits where
  batch := separatorBatch
  symbolStatuses := [⟨⟨"2330", by decide⟩, .expectedNoData, some ⟨"no_kbars", by decide⟩,
    iff_of_false (fun h => by cases h) fun h => by cases h⟩]
  data := []
  statusCount := by decide
  itemCount := by decide
  declared := rfl
  statusSymbols := by decide
  checksum := rfl
  naturalKeys := List.nodup_nil
  rowStatuses _ h := by cases h
  covered _ h := by cases h
  dataSymbols status hstatus h := by
    cases List.mem_singleton.mp hstatus
    cases h
  anomalyKeys := List.nodup_nil
  anomalyRows _ h := by cases h
  nullFields _ h := by cases h
  size := by decide +kernel

/-- The request with a payload. -/
def minuteRequest {lang : Language} {limits : Limits} (datasetKey : String)
    (p : MarketMinutePayload lang limits) : AcceptedRequest lang where
  datasetKey
  schemaId := "market_minute"
  batch := .minute p.batch
  rest := [("data", .arr (p.data.map MarketMinuteRow.dump)),
    ("symbol_statuses", .arr (p.symbolStatuses.map MinuteSymbolStatus.dump))]
  schema := rfl

theorem minuteRequest_payload {lang : Language} {limits : Limits} (datasetKey : String)
    (p : MarketMinutePayload lang limits) : (minuteRequest datasetKey p).payload = p.dump := rfl

theorem rerun_other_identity :
    let r := minuteRequest "tw_equity_minute" separatorPayload
    rerunBatchMetadata zeroLanguage r.payload r.datasetKey r.schemaId ≠ ingestContractMetadata r := by
  intro r h
  have hid := congrArg BatchMetadata.snapshotId h
  exact absurd hid (by decide +kernel)

end FinDB.Delivery
