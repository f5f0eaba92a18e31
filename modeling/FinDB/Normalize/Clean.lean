import FinDB.Normalize.Mapping

/-! # From acceptance to normalization

What the ingress accepts is checked once more behind the mapping. The two agree on prices,
volumes, anomalies and times. They differ on symbols: the ingress compares them as they
are sent, the mapping strips and capitalises them first. -/
namespace FinDB.Normalize
open FinDB.Lib

/-! ## Batches -/

section
variable (lang : Language)

/-- The issues of each record, with the keys a batch has seen. -/
def eodIssues (checks : OhlcChecks) : List EodKey → List MappedRecord → List (List DQIssueRecord)
  | _, [] => []
  | seenKeys, r :: rs =>
    (validateEod lang checks seenKeys r).1 :: eodIssues checks (validateEod lang checks seenKeys r).2 rs

/-- The issues of each record; the anomalies are those of the payload. -/
def minuteIssues (raw : Json) :
    List MinuteKey → List MarketMinuteRecord → List (List DQIssueRecord)
  | _, [] => []
  | seenKeys, r :: rs =>
    let fields := anomalyFields lang (anomaliesForRecord lang raw r)
    (validateMinute lang seenKeys fields r).1 ::
      minuteIssues raw (validateMinute lang seenKeys fields r).2 rs

/-- The keys of the records that have a bar start. -/
def minuteKeys (rs : List MarketMinuteRecord) : List MinuteKey :=
  rs.filterMap fun r => r.barStartTime.map (minuteKey lang r)

/-- `{key for key, count in key_counts.items() if count > 1}`. -/
def repeatedKeys (rs : List MarketMinuteRecord) : List MinuteKey :=
  (minuteKeys lang rs).filter fun key => decide (1 < (minuteKeys lang rs).count key)

end

/-! ## Agreement of rows -/

/-- The record has the date, prices, volume and turnover of the row. -/
def EodAgrees (row : MarketEODRow) (r : MappedRecord) : Prop :=
  r.tradeDate = ⟨row.tradeDate, 0, 0, UtcTime.midnight_valid⟩ ∧
  r.open_ = row.open_.map (·.dec) ∧ r.high = row.high.map (·.dec) ∧ r.low = row.low.map (·.dec) ∧
  r.close = some row.close.dec ∧ r.volume = row.volume.map (fun (n : Nat) => (n : Int)) ∧
  r.turnover = row.turnover.map (·.dec)

def MinuteAgrees {lang : Language} (row : MarketMinuteRow lang) (r : MarketMinuteRecord) : Prop :=
  r.tradeDate = row.tradeDate ∧ r.barStartTime = some row.barStartTime ∧
  r.barEndTime = some row.barEndTime ∧ r.signalTime = some row.signalTime ∧
  r.open_ = some row.open_.dec ∧ r.high = some row.high.dec ∧ r.low = some row.low.dec ∧
  r.close = some row.close.dec ∧ r.volume = row.volume.map (fun (n : Nat) => (n : Int)) ∧
  r.turnover = row.turnover.map (·.dec)

/-- One record for each row, and none of them is stopped. -/
def EodClean (lang : Language) (cfg : MappingConfig) {limits : Limits} (p : MarketEODPayload limits) :
    Prop :=
  ∃ records, mapEodFields lang cfg p.dump = .ok records ∧ List.Forall₂ EodAgrees p.data records ∧
    ∀ issues ∈ eodIssues lang dqValidator [] records, blocking issues = false

def MinuteClean (lang : Language) (cfg : MappingConfig) {limits : Limits}
    (p : MarketMinutePayload lang limits) : Prop :=
  ∃ records, mapMinuteFields lang cfg p.dump = .ok records ∧
    List.Forall₂ MinuteAgrees p.data records ∧
    ∀ issues ∈ minuteIssues lang p.dump (repeatedKeys lang records) records, blocking issues = false

/-! ## Skipped rows -/

section
variable {ρ τ : Type} {skipped : ρ → Bool} {record : ρ → τ} {rows : List ρ}

/-- One record for each row, when none is skipped. -/
theorem filterMap_kept (h : ∀ row ∈ rows, skipped row = false) :
    (rows.map fun row => if skipped row then none else some (record row)).filterMap id =
      rows.map record := by
  induction rows with
  | nil => rfl
  | cons row rows ih =>
    rw [List.map_cons, List.filterMap_cons, h row List.mem_cons_self,
      ih fun r hr => h r (List.mem_cons_of_mem _ hr)]
    rfl

/-- As many records as rows: none is skipped. -/
theorem kept_of_length (h : ((rows.map fun row => if skipped row then none else
    some (record row)).filterMap id).length = rows.length) : ∀ row ∈ rows, skipped row = false := by
  induction rows with
  | nil => exact fun row hrow => by cases hrow
  | cons row rows ih =>
    have hle : ((rows.map fun row => if skipped row then none else
        some (record row)).filterMap id).length ≤ rows.length := by
      refine (List.length_filterMap_le _ _).trans ?_
      rw [List.length_map]
    rw [List.map_cons, List.filterMap_cons] at h
    cases hrow : skipped row with
    | true =>
      rw [if_pos hrow] at h
      change (List.filterMap id (rows.map _)).length = rows.length + 1 at h
      omega
    | false =>
      rw [if_neg (by rw [hrow]; decide)] at h
      exact List.forall_mem_cons.mpr ⟨hrow, ih (Nat.add_right_cancel h)⟩

end

/-! ## Daily payloads -/

section
variable {lang : Language} {ctx : ContractContext} {cfg : MappingConfig}

/-- The record of a row. -/
def eodRecord (lang : Language) (ctx : ContractContext) (row : MarketEODRow) : MappedRecord :=
  { recordHead lang ctx row.fields with
    tradeDate := ⟨row.tradeDate, 0, 0, UtcTime.midnight_valid⟩
    open_ := row.open_.map (·.dec)
    high := row.high.map (·.dec)
    low := row.low.map (·.dec)
    close := some row.close.dec
    volume := row.volume.map fun (n : Nat) => (n : Int)
    turnover := row.turnover.map (·.dec)
    totalTicks := row.totalTicks.map fun (n : Nat) => (n : Int) }

theorem eodRecord_symbol (row : MarketEODRow) :
    (eodRecord lang ctx row).symbol = normalizeSymbol lang row.symbol.text :=
  symbolOf_text lang row.symbol

theorem eodRecord_agrees (row : MarketEODRow) : EodAgrees row (eodRecord lang ctx row) :=
  ⟨rfl, rfl, rfl, rfl, rfl, rfl, rfl⟩

theorem mapEodItem_dump (row : MarketEODRow) : mapEodItem lang ctx row.dump =
    .ok (if (normalizeSymbol lang row.symbol.text).isEmpty then none
      else some (eodRecord lang ctx row)) := by
  have hdate : item "trade_date" row.fields = dateJson row.tradeDate := rfl
  have hsymbol : item "symbol" row.fields = .str row.symbol.text := rfl
  have hopen : item "open" row.fields = nullable decimalJson row.open_ := rfl
  have hhigh : item "high" row.fields = nullable decimalJson row.high := rfl
  have hlow : item "low" row.fields = nullable decimalJson row.low := rfl
  have hclose : item "close" row.fields = decimalJson row.close := rfl
  have hturnover : item "turnover" row.fields = nullable decimalJson row.turnover := rfl
  have hvolume : item "volume" row.fields = nullable natJson row.volume := rfl
  have hticks : item "total_ticks" row.fields = nullable natJson row.totalTicks := rfl
  simp only [MarketEODRow.dump, mapEodItem, hdate, hsymbol, hopen, hhigh, hlow, hclose, hturnover,
    hvolume, hticks, parseTradeDate_dateJson, symbolOf_text, parseDecimal_nullable,
    parseDecimal_decimalJson, parseInt_nullable]
  split <;> rfl

theorem mapEodFields_dump {limits : Limits} (p : MarketEODPayload limits) :
    mapEodFields lang cfg p.dump = .ok ((p.data.map fun row =>
      if (normalizeSymbol lang row.symbol.text).isEmpty then none
      else some (eodRecord lang (contractContext lang cfg) row)).filterMap id) := by
  have hitems : dataItems p.dump = p.data.map MarketEODRow.dump := rfl
  unfold mapEodFields
  rw [hitems, mapM_of_ok fun row _ => mapEodItem_dump row]
  rfl

theorem ohlcBounds_iff {open_ high low close : Option NonNegativeDecimal} :
    validateOhlcBounds open_ high low close = true ↔
      (∀ h ∈ high, ∀ x ∈ [open_, low, close], ∀ d ∈ x, d.dec ≤ h.dec) ∧
      (∀ l ∈ low, ∀ x ∈ [open_, high, close], ∀ d ∈ x, l.dec ≤ d.dec) := by
  have hmap : ∀ (v : Option NonNegativeDecimal) (P : Dec → Prop),
      (∀ d ∈ v.map (·.dec), P d) ↔ ∀ d ∈ v, P d.dec := by
    intro v P
    cases v <;> simp
  unfold validateOhlcBounds
  rw [Bool.and_eq_true, Bool.not_eq_true', Bool.not_eq_true', belowAny_eq_false, aboveAny_eq_false]
  simp only [List.forall_mem_cons, List.not_mem_nil, false_implies, implies_true, and_true, hmap]

/-- The bounds of the ingress are more than those of the first version's checks. -/
theorem checkOhlc_eodRecord (row : MarketEODRow) :
    checkOhlcHigh (eodRecord lang ctx row) = none ∧ checkOhlcLow (eodRecord lang ctx row) = none := by
  obtain ⟨hhigh, hlow⟩ := ohlcBounds_iff.mp row.ohlcBounds
  constructor
  · unfold checkOhlcHigh
    split
    · rename_i high open_ close hh ho hc
      obtain ⟨h, hrow, rfl⟩ := Option.map_eq_some_iff.mp hh
      obtain ⟨o, horow, rfl⟩ := Option.map_eq_some_iff.mp ho
      cases Option.some.inj hc
      refine if_neg (Dec.not_lt.mpr (Dec.max_le_iff.mpr ⟨?_, ?_⟩))
      · exact hhigh h hrow row.open_ (by simp) o horow
      · exact hhigh h hrow (some row.close) (by simp) row.close rfl
    · rfl
  · unfold checkOhlcLow
    split
    · rename_i low open_ close hl ho hc
      obtain ⟨l, hrow, rfl⟩ := Option.map_eq_some_iff.mp hl
      obtain ⟨o, horow, rfl⟩ := Option.map_eq_some_iff.mp ho
      cases Option.some.inj hc
      refine if_neg (Dec.not_lt.mpr (Dec.le_min_iff.mpr ⟨?_, ?_⟩))
      · exact hlow l hrow row.open_ (by simp) o horow
      · exact hlow l hrow (some row.close) (by simp) row.close rfl
    · rfl

theorem checkVolumePositive_eodRecord (row : MarketEODRow) :
    checkVolumePositive (eodRecord lang ctx row) = none := by
  have hvolume : (eodRecord lang ctx row).volume = row.volume.map fun (n : Nat) => (n : Int) := rfl
  unfold checkVolumePositive
  rw [hvolume]
  cases row.volume with
  | none => rfl
  | some n => rw [Option.map_some, Option.bind_some, if_neg (Int.not_lt.mpr (Int.natCast_nonneg n))]

/-- Only a repeated key stops the record of an accepted row. -/
theorem validateEod_eodRecord {row : MarketEODRow} {seenKeys : List EodKey}
    (h : (normalizeSymbol lang row.symbol.text).isEmpty = false) :
    (blocking (validateEod lang dqValidator seenKeys (eodRecord lang ctx row)).1 = true ↔
      eodKey lang (eodRecord lang ctx row) ∈ seenKeys) ∧
    (eodKey lang (eodRecord lang ctx row) ∉ seenKeys →
      (validateEod lang dqValidator seenKeys (eodRecord lang ctx row)).2 =
        eodKey lang (eodRecord lang ctx row) :: seenKeys) := by
  obtain ⟨hhigh, hlow⟩ := @checkOhlc_eodRecord lang ctx row
  have hvolume := @checkVolumePositive_eodRecord lang ctx row
  have hsymbol : (eodRecord lang ctx row).symbol.isEmpty = false := by rwa [eodRecord_symbol]
  have hduplicate : checkDuplicateKey lang seenKeys (eodRecord lang ctx row) =
      if eodKey lang (eodRecord lang ctx row) ∈ seenKeys then
        (some ((eodRecord lang ctx row).issue "DUPLICATE_KEY" .error
          "Duplicate instrument/trade_date in batch"), seenKeys)
      else (none, eodKey lang (eodRecord lang ctx row) :: seenKeys) := by
    unfold checkDuplicateKey
    rw [if_neg (by rw [hsymbol]; decide)]
  have hchecks : dqValidator.high (eodRecord lang ctx row) = none ∧
      dqValidator.low (eodRecord lang ctx row) = none := ⟨hhigh, hlow⟩
  unfold validateEod
  simp only [hduplicate, hchecks, hvolume, blocking_filterMap]
  by_cases hseen : eodKey lang (eodRecord lang ctx row) ∈ seenKeys
  · rw [if_pos hseen]
    exact ⟨iff_of_true rfl hseen, fun h => absurd hseen h⟩
  · rw [if_neg hseen]
    refine ⟨iff_of_false ?_ hseen, fun _ => rfl⟩
    simp [missing_not_error, abnormal_not_error]

theorem eodKey_eq_iff {row row' : MarketEODRow} :
    eodKey lang (eodRecord lang ctx row) = eodKey lang (eodRecord lang ctx row') ↔
      row.tradeDate = row'.tradeDate ∧
        normalizeSymbol lang row.symbol.text = normalizeSymbol lang row'.symbol.text := by
  unfold eodKey
  rw [eodRecord_symbol, eodRecord_symbol]
  simp only [eodRecord, recordHead, Prod.mk.injEq, UtcTime.mk.injEq, and_true, true_and]
  exact and_comm

/-- A batch passes when its keys are new and apart. -/
theorem eodIssues_clean {rows : List MarketEODRow}
    (h : ∀ row ∈ rows, (normalizeSymbol lang row.symbol.text).isEmpty = false) :
    ∀ seenKeys, (∀ issues ∈ eodIssues lang dqValidator seenKeys (rows.map (eodRecord lang ctx)),
        blocking issues = false) ↔
      rows.Pairwise (fun row row' =>
        eodKey lang (eodRecord lang ctx row) ≠ eodKey lang (eodRecord lang ctx row')) ∧
      ∀ row ∈ rows, eodKey lang (eodRecord lang ctx row) ∉ seenKeys := by
  induction rows with
  | nil => exact fun seenKeys => iff_of_true (fun i hi => by cases hi) ⟨.nil, fun r hr => by cases hr⟩
  | cons row rows ih =>
    intro seenKeys
    obtain ⟨hhead, hrest⟩ := List.forall_mem_cons.mp h
    obtain ⟨hblock, hnext⟩ := @validateEod_eodRecord lang ctx row seenKeys hhead
    rw [List.map_cons, eodIssues, List.forall_mem_cons, List.forall_mem_cons, List.pairwise_cons]
    by_cases hseen : eodKey lang (eodRecord lang ctx row) ∈ seenKeys
    · refine iff_of_false (fun hall => ?_) fun hall => hall.2.1 hseen
      rw [hblock.mpr hseen] at hall
      cases hall.1
    · have hfree : blocking
          (validateEod lang dqValidator seenKeys (eodRecord lang ctx row)).1 = false :=
        Bool.eq_false_iff.mpr fun hb => hseen (hblock.mp hb)
      rw [hnext hseen, ih hrest]
      constructor
      · rintro ⟨_, hpairs, hnew⟩
        exact ⟨⟨fun r hr he => hnew r hr (he ▸ List.mem_cons_self), hpairs⟩, hseen,
          fun r hr hmem => hnew r hr (List.mem_cons_of_mem _ hmem)⟩
      · rintro ⟨⟨hapart, hpairs⟩, _, hnew⟩
        refine ⟨hfree, hpairs, fun r hr hmem => ?_⟩
        exact (List.mem_cons.mp hmem).elim (fun he => hapart r hr he.symm) (hnew r hr)

/-- Normalised symbols are no empty texts, and apart on each date. -/
def EodSymbolsApart (lang : Language) (rows : List MarketEODRow) : Prop :=
  (∀ row ∈ rows, (normalizeSymbol lang row.symbol.text).isEmpty = false) ∧
  rows.Pairwise fun row row' => row.tradeDate = row'.tradeDate →
    normalizeSymbol lang row.symbol.text ≠ normalizeSymbol lang row'.symbol.text

theorem eodClean_iff {limits : Limits} (p : MarketEODPayload limits) :
    EodClean lang cfg p ↔ EodSymbolsApart lang p.data := by
  have hapart : ∀ row row' : MarketEODRow,
      eodKey lang (eodRecord lang (contractContext lang cfg) row) ≠
        eodKey lang (eodRecord lang (contractContext lang cfg) row') ↔
      (row.tradeDate = row'.tradeDate →
        normalizeSymbol lang row.symbol.text ≠ normalizeSymbol lang row'.symbol.text) :=
    fun row row' => by rw [Ne, eodKey_eq_iff, not_and]
  constructor
  · rintro ⟨records, hmap, hagree, hclean⟩
    rw [mapEodFields_dump] at hmap
    cases hmap
    have hkept := kept_of_length hagree.length_eq.symm
    rw [filterMap_kept hkept] at hclean
    exact ⟨hkept, ((eodIssues_clean hkept []).mp hclean).1.imp fun h => (hapart _ _).mp h⟩
  · rintro ⟨hkept, hpairs⟩
    refine ⟨_, mapEodFields_dump p, ?_, ?_⟩
    · rw [filterMap_kept hkept, List.forall₂_map_right_iff]
      exact List.forall₂_same.mpr fun row _ => eodRecord_agrees row
    · rw [filterMap_kept hkept]
      exact (eodIssues_clean hkept []).mpr
        ⟨hpairs.imp fun h => (hapart _ _).mpr h, fun row _ hmem => by cases hmem⟩

end

/-! ## Minute payloads -/

section
variable {lang : Language} {ctx : ContractContext} {cfg : MappingConfig}

/-- The record of a bar. -/
def minuteRecord (ctx : ContractContext) (row : MarketMinuteRow lang) : MarketMinuteRecord :=
  { recordHead lang ctx row.fields with
    tradeDate := row.tradeDate
    barStartTime := some row.barStartTime
    barEndTime := some row.barEndTime
    signalTime := some row.signalTime
    marketTimezone := some "Asia/Taipei"
    priceAdjustment := some "none"
    open_ := some row.open_.dec
    high := some row.high.dec
    low := some row.low.dec
    close := some row.close.dec
    volume := row.volume.map fun (n : Nat) => (n : Int)
    turnover := row.turnover.map (·.dec)
    tradeCount := none }

theorem minuteRecord_symbol (row : MarketMinuteRow lang) :
    (minuteRecord ctx row).symbol = normalizeSymbol lang row.symbol.text :=
  symbolOf_text lang row.symbol

theorem minuteRecord_agrees (row : MarketMinuteRow lang) :
    MinuteAgrees row (minuteRecord ctx row) :=
  ⟨rfl, rfl, rfl, rfl, rfl, rfl, rfl, rfl, rfl, rfl⟩

theorem mapMinuteItem_dump (row : MarketMinuteRow lang) : mapMinuteItem lang ctx row.dump =
    .ok (if (normalizeSymbol lang row.symbol.text).isEmpty then none
      else some (minuteRecord ctx row)) := by
  have hdate : item "trade_date" row.fields = dateJson row.tradeDate := rfl
  have hsymbol : item "symbol" row.fields = .str row.symbol.text := rfl
  have hopen : item "open" row.fields = decimalJson row.open_ := rfl
  have hhigh : item "high" row.fields = decimalJson row.high := rfl
  have hlow : item "low" row.fields = decimalJson row.low := rfl
  have hclose : item "close" row.fields = decimalJson row.close := rfl
  have hturnover : item "turnover" row.fields = nullable decimalJson row.turnover := rfl
  have hvolume : item "volume" row.fields = nullable natJson row.volume := rfl
  have hstart : item "bar_start_time" row.fields = timeJson row.barStartTime := rfl
  have hend : item "bar_end_time" row.fields = timeJson row.barEndTime := rfl
  have hsignal : item "signal_time" row.fields = timeJson row.signalTime := rfl
  have hzone : (textOf lang (item "market_timezone" row.fields)).map lang.strip =
      some "Asia/Taipei" := congrArg some (lang.strip_eq "Asia/Taipei" (by decide))
  have hadjustment : (textOf lang (item "price_adjustment" row.fields)).map lang.strip =
      some "none" := congrArg some (lang.strip_eq "none" (by decide))
  have hcount : item "trade_count" row.fields = .null := rfl
  simp only [MarketMinuteRow.dump, mapMinuteItem, hdate, hsymbol, hopen, hhigh, hlow, hclose,
    hturnover, hvolume, hstart, hend, hsignal, hzone, hadjustment, hcount,
    parseLocalTradeDate_dateJson, symbolOf_text, parseDecimal_nullable, parseDecimal_decimalJson,
    parseInt_nullable, parseUtcTimestamp_timeJson]
  split <;> rfl

theorem mapMinuteFields_dump {limits : Limits} (p : MarketMinutePayload lang limits) :
    mapMinuteFields lang cfg p.dump = .ok ((p.data.map fun row =>
      if (normalizeSymbol lang row.symbol.text).isEmpty then none
      else some (minuteRecord (contractContext lang cfg) row)).filterMap id) := by
  have hitems : dataItems p.dump = p.data.map MarketMinuteRow.dump := rfl
  unfold mapMinuteFields
  rw [hitems, mapM_of_ok fun row _ => mapMinuteItem_dump row]
  rfl

theorem minuteTimestamps_minuteRecord (row : MarketMinuteRow lang) :
    minuteTimestamps (minuteRecord ctx row) = [] := by
  obtain ⟨hend, hsignal⟩ := row.oneMinuteBar
  have hminute : row.barEndTime.toMicros - row.barStartTime.toMicros = oneMinute := by omega
  simp only [minuteTimestamps, minuteRecord]
  rw [if_neg (not_not_intro hminute), decide_eq_false (not_not_intro hsignal)]
  rfl

theorem minutePrices_minuteRecord (row : MarketMinuteRow lang) :
    minutePrices (minuteRecord ctx row) = [] := by
  obtain ⟨hhigh, hlow⟩ := ohlcBounds_iff.mp row.ohlcBounds
  have hup : ¬ row.high.dec < row.open_.dec.max row.close.dec :=
    Dec.not_lt.mpr (Dec.max_le_iff.mpr ⟨hhigh row.high rfl (some row.open_) (by simp) _ rfl,
      hhigh row.high rfl (some row.close) (by simp) _ rfl⟩)
  have hdown : ¬ row.open_.dec.min row.close.dec < row.low.dec :=
    Dec.not_lt.mpr (Dec.le_min_iff.mpr ⟨hlow row.low rfl (some row.open_) (by simp) _ rfl,
      hlow row.low rfl (some row.close) (by simp) _ rfl⟩)
  have hnonneg : ([row.open_.dec, row.high.dec, row.low.dec, row.close.dec].any
      fun d => decide (d.value < 0)) = false := by
    have h : ∀ d : NonNegativeDecimal, decide (d.dec.value < 0) = false :=
      fun d => decide_eq_false (Rat.not_lt.mpr d.nonneg)
    simp only [List.any_cons, List.any_nil, h, Bool.or_self]
  simp only [minutePrices, minuteRecord]
  rw [decide_eq_false hup, decide_eq_false hdown, hnonneg]
  rfl

theorem minuteSlot_minuteRecord (row : MarketMinuteRow lang) (seenKeys : List MinuteKey) :
    minuteSlot lang seenKeys (minuteRecord ctx row) =
      ((minuteRecord ctx row).errorIf
        (decide (minuteKey lang (minuteRecord ctx row) row.barStartTime ∈ seenKeys)) "DUPLICATE_KEY"
        "Duplicate instrument/bar_start_time in batch",
      minuteKey lang (minuteRecord ctx row) row.barStartTime :: seenKeys) := by
  have hdate : decide ((minuteRecord ctx row).tradeDate ≠ lang.taipeiDate row.barStartTime) = false :=
    decide_eq_false (not_not_intro row.localDate.symm)
  have hstart : (minuteRecord ctx row).barStartTime = some row.barStartTime := rfl
  unfold minuteSlot
  simp only [hstart, hdate, MarketMinuteRecord.errorIf_false, List.nil_append]

/-- Only a repeated key stops the record of an accepted bar whose nulls are explained. -/
theorem validateMinute_minuteRecord {row : MarketMinuteRow lang} {fields : List String}
    (hsource : (ctx.source.getD "").isEmpty = false)
    (hfields : ∀ field, row.lacks field = true → field.name ∈ fields) (seenKeys : List MinuteKey) :
    validateMinute lang seenKeys fields (minuteRecord ctx row) =
      ((minuteRecord ctx row).errorIf
        (decide (minuteKey lang (minuteRecord ctx row) row.barStartTime ∈ seenKeys)) "DUPLICATE_KEY"
        "Duplicate instrument/bar_start_time in batch",
      minuteKey lang (minuteRecord ctx row) row.barStartTime :: seenKeys) := by
  have hsource' : ((minuteRecord ctx row).source.getD "").isEmpty = false := hsource
  have hvolume : (minuteRecord ctx row).volume.any (decide <| · < 0) = false := by
    change (row.volume.map fun (n : Nat) => (n : Int)).any _ = false
    cases row.volume with
    | none => rfl
    | some n => exact decide_eq_false (Int.not_lt.mpr (Int.natCast_nonneg n))
  have hturnover : (minuteRecord ctx row).turnover.any (decide <| ·.value < 0) = false := by
    change (row.turnover.map (·.dec)).any _ = false
    cases row.turnover with
    | none => rfl
    | some d => exact decide_eq_false (Rat.not_lt.mpr d.nonneg)
  have hnull : ∀ field : AnomalyField, (row.lacks field && !fields.contains field.name) = false := by
    intro field
    cases h : row.lacks field with
    | false => rfl
    | true => simp [hfields field h]
  have hnovolume : ((minuteRecord ctx row).volume.isNone && !fields.contains "volume") = false := by
    have h := hnull .volume
    change ((row.volume.map _).isNone && _) = false
    rwa [Option.isNone_map]
  have hnoturnover : ((minuteRecord ctx row).turnover.isNone && !fields.contains "turnover") = false := by
    have h := hnull .turnover
    change ((row.turnover.map _).isNone && _) = false
    rwa [Option.isNone_map]
  have hzone : ((minuteRecord ctx row).marketTimezone != some "Asia/Taipei") = false := by
    change (some "Asia/Taipei" != some "Asia/Taipei") = false
    decide
  have hadjustment : ((minuteRecord ctx row).priceAdjustment != some "none") = false := by
    change (some "none" != some "none") = false
    decide
  have hcount : (minuteRecord ctx row).tradeCount.isSome = false := rfl
  unfold validateMinute
  simp only [minuteTimestamps_minuteRecord, minuteSlot_minuteRecord, minutePrices_minuteRecord,
    hsource', hvolume, hturnover, hnovolume, hnoturnover, hzone, hadjustment, hcount,
    MarketMinuteRecord.errorIf_false, List.append_nil, List.nil_append]

/-- The evidence of a null field is found again under the normalised symbol. -/
theorem mem_anomalyFields {limits : Limits} (p : MarketMinutePayload lang limits)
    {row : MarketMinuteRow lang} (hrow : row ∈ p.data) {field : AnomalyField}
    (h : row.lacks field = true) :
    field.name ∈ anomalyFields lang (anomaliesForRecord lang p.dump (minuteRecord ctx row)) := by
  obtain ⟨a, ha, hsymbol, hstart, rfl⟩ := p.nullFields row hrow field h
  have hitems : anomalyItems p.dump = p.batch.anomalies.map ProviderFieldAnomaly.dump := rfl
  have hmatch : anomalyMatches lang (minuteRecord ctx row).symbol row.barStartTime a.dump = true := by
    have hs : item "symbol" a.fields = .str a.symbol.text := rfl
    have ht : item "bar_start_time" a.fields = timeJson a.barStartTime := rfl
    simp only [anomalyMatches, ProviderFieldAnomaly.dump, hs, ht, symbolOf_text,
      parseUtcTimestamp_timeJson, minuteRecord_symbol, hsymbol, hstart, BEq.rfl, decide_true,
      Bool.and_self]
  have hmem : a.dump ∈ anomaliesForRecord lang p.dump (minuteRecord ctx row) := by
    change a.dump ∈ (anomalyItems p.dump).filter (anomalyMatches lang _ row.barStartTime)
    rw [hitems]
    exact List.mem_filter.mpr ⟨List.mem_map_of_mem ha, hmatch⟩
  exact List.mem_map.mpr ⟨a.dump, hmem, rfl⟩

theorem minuteKey_eq_iff {row row' : MarketMinuteRow lang} :
    minuteKey lang (minuteRecord ctx row) row.barStartTime =
      minuteKey lang (minuteRecord ctx row') row'.barStartTime ↔
      row.barStartTime = row'.barStartTime ∧
        normalizeSymbol lang row.symbol.text = normalizeSymbol lang row'.symbol.text := by
  unfold minuteKey
  rw [minuteRecord_symbol, minuteRecord_symbol]
  simp only [minuteRecord, recordHead, Prod.mk.injEq, true_and]
  exact and_comm

/-- A batch passes when its keys are new and apart. -/
theorem minuteIssues_clean {raw : Json} {rows : List (MarketMinuteRow lang)}
    (hsource : (ctx.source.getD "").isEmpty = false)
    (h : ∀ row ∈ rows, ∀ field, row.lacks field = true →
      field.name ∈ anomalyFields lang (anomaliesForRecord lang raw (minuteRecord ctx row))) :
    ∀ seenKeys, (∀ issues ∈ minuteIssues lang raw seenKeys (rows.map (minuteRecord ctx)),
        blocking issues = false) ↔
      rows.Pairwise (fun row row' => minuteKey lang (minuteRecord ctx row) row.barStartTime ≠
        minuteKey lang (minuteRecord ctx row') row'.barStartTime) ∧
      ∀ row ∈ rows, minuteKey lang (minuteRecord ctx row) row.barStartTime ∉ seenKeys := by
  induction rows with
  | nil => exact fun seenKeys => iff_of_true (fun i hi => by cases hi) ⟨.nil, fun r hr => by cases hr⟩
  | cons row rows ih =>
    intro seenKeys
    obtain ⟨hhead, hrest⟩ := List.forall_mem_cons.mp h
    rw [List.map_cons, minuteIssues, List.forall_mem_cons, List.forall_mem_cons, List.pairwise_cons]
    simp only [validateMinute_minuteRecord hsource hhead, MarketMinuteRecord.blocking_errorIf,
      decide_eq_false_iff_not]
    rw [ih hrest]
    constructor
    · rintro ⟨hseen, hpairs, hnew⟩
      exact ⟨⟨fun r hr he => hnew r hr (he ▸ List.mem_cons_self), hpairs⟩, hseen,
        fun r hr hmem => hnew r hr (List.mem_cons_of_mem _ hmem)⟩
    · rintro ⟨⟨hapart, hpairs⟩, hseen, hnew⟩
      refine ⟨hseen, hpairs, fun r hr hmem => ?_⟩
      exact (List.mem_cons.mp hmem).elim (fun he => hapart r hr he.symm) (hnew r hr)

/-- Normalised symbols are no empty texts, and apart at each bar start. -/
def MinuteSymbolsApart (rows : List (MarketMinuteRow lang)) : Prop :=
  (∀ row ∈ rows, (normalizeSymbol lang row.symbol.text).isEmpty = false) ∧
  rows.Pairwise fun row row' => row.barStartTime = row'.barStartTime →
    normalizeSymbol lang row.symbol.text ≠ normalizeSymbol lang row'.symbol.text

/-- Keys that are apart are not counted twice. -/
theorem repeatedKeys_nil {rows : List (MarketMinuteRow lang)}
    (h : rows.Pairwise (fun row row' => minuteKey lang (minuteRecord ctx row) row.barStartTime ≠
      minuteKey lang (minuteRecord ctx row') row'.barStartTime)) :
    repeatedKeys lang (rows.map (minuteRecord ctx)) = [] := by
  have hkeys : minuteKeys lang (rows.map (minuteRecord ctx)) =
      rows.map fun row => minuteKey lang (minuteRecord ctx row) row.barStartTime := by
    unfold minuteKeys
    rw [List.filterMap_map]
    exact congrFun List.filterMap_eq_map rows
  have hnodup : (minuteKeys lang (rows.map (minuteRecord ctx))).Nodup := by
    rw [hkeys]
    exact List.pairwise_map.mpr h
  unfold repeatedKeys
  refine List.filter_eq_nil_iff.mpr fun key _ => ?_
  simpa using List.nodup_iff_count_le_one.mp hnodup key

theorem minuteClean_iff {limits : Limits} (p : MarketMinutePayload lang limits)
    (hsource : ((contractContext lang cfg).source.getD "").isEmpty = false) :
    MinuteClean lang cfg p ↔ MinuteSymbolsApart p.data := by
  have hfields : ∀ row ∈ p.data, ∀ field, row.lacks field = true → field.name ∈ anomalyFields lang
      (anomaliesForRecord lang p.dump (minuteRecord (contractContext lang cfg) row)) :=
    fun row hrow field h => mem_anomalyFields p hrow h
  have hapart : ∀ row row' : MarketMinuteRow lang,
      minuteKey lang (minuteRecord (contractContext lang cfg) row) row.barStartTime ≠
        minuteKey lang (minuteRecord (contractContext lang cfg) row') row'.barStartTime ↔
      (row.barStartTime = row'.barStartTime →
        normalizeSymbol lang row.symbol.text ≠ normalizeSymbol lang row'.symbol.text) :=
    fun row row' => by rw [Ne, minuteKey_eq_iff, not_and]
  constructor
  · rintro ⟨records, hmap, hagree, hclean⟩
    rw [mapMinuteFields_dump] at hmap
    cases hmap
    have hkept := kept_of_length hagree.length_eq.symm
    rw [filterMap_kept hkept] at hclean
    exact ⟨hkept, ((minuteIssues_clean hsource hfields _).mp hclean).1.imp fun h => (hapart _ _).mp h⟩
  · rintro ⟨hkept, hpairs⟩
    have hkeys := hpairs.imp fun h => (hapart _ _).mpr h
    refine ⟨_, mapMinuteFields_dump p, ?_, ?_⟩
    · rw [filterMap_kept hkept, List.forall₂_map_right_iff]
      exact List.forall₂_same.mpr fun row _ => minuteRecord_agrees row
    · rw [filterMap_kept hkept, repeatedKeys_nil hkeys]
      exact (minuteIssues_clean hsource hfields []).mpr ⟨hkeys, fun row _ hmem => by cases hmem⟩

end

/-! ## Every accepted payload -/

/-- The source of an accepted request. -/
structure SourceName where
  text : String
  pattern : isSourceName text = true

/-- A dataset's configuration with the source of the request. -/
def ingestConfig (market assetClass : String) (currency : Option String) (source : SourceName) :
    MappingConfig := ⟨market, assetClass, currency, some source.text⟩

theorem source_nonempty {lang : Language} {market assetClass : String} {currency : Option String}
    {source : SourceName} : ((contractContext lang
      (ingestConfig market assetClass currency source)).source.getD "").isEmpty = false := by
  have hpattern := source.pattern
  unfold isSourceName at hpattern
  rw [Bool.and_eq_true, decide_eq_true_iff, List.all_eq_true] at hpattern
  obtain ⟨hlen, hall⟩ := hpattern
  have hnonempty : source.text.isEmpty = false := by
    rw [String.isEmpty_eq_false_iff]
    rintro h
    rw [h] at hlen
    exact absurd hlen.1 (by decide)
  have hstrip : lang.strip source.text = source.text := by
    refine lang.strip_eq _ (List.all_eq_true.mpr fun c hc => decide_eq_true ?_)
    have h := hall c hc
    simp only [Char.isDigit, Bool.or_eq_true, Bool.and_eq_true, decide_eq_true_eq, beq_iff_eq] at h
    rcases h with ⟨h0, h9⟩ | ⟨ha, hz⟩ | rfl
    · exact ⟨le_trans (by decide : '!' ≤ '0') h0, le_trans (show c ≤ '9' from h9) (by decide)⟩
    · exact ⟨le_trans (by decide : '!' ≤ 'a') ha, le_trans hz (by decide)⟩
    · decide
  have hgiven : given (some source.text) = some source.text := by
    simp [given, hnonempty]
  simp only [contractContext, ingestConfig, hgiven, Option.map_some, Option.getD_some, hstrip,
    lang.lower_eq _ source.pattern, hnonempty]

/-- **Acceptance and normalization.** An accepted payload maps to one record a row, with
its values, and passes its checks exactly when the normalised symbols are no empty texts
and apart wherever the dates or bar starts are the same. -/
theorem accepted_clean_iff (lang : Language) (market assetClass : String) (currency : Option String)
    (source : SourceName) (limits : Limits) :
    (∀ p : MarketEODPayload limits,
      EodClean lang (ingestConfig market assetClass currency source) p ↔
        EodSymbolsApart lang p.data) ∧
    (∀ p : MarketMinutePayload lang limits,
      MinuteClean lang (ingestConfig market assetClass currency source) p ↔
        MinuteSymbolsApart p.data) :=
  ⟨fun p => eodClean_iff p, fun p => minuteClean_iff p source_nonempty⟩

/-! ## Two accepted payloads -/

/-- `str.isspace` below 256. -/
def isBlank (c : Char) : Bool :=
  c == ' ' || (decide ('\t' ≤ c ∧ c ≤ '\r') || (decide ('\x1c' ≤ c ∧ c ≤ '\x1f') ||
    (c == '\x85' || c == '\xa0')))

/-- The string methods on texts below 256; the payloads here ask for nothing else. -/
def asciiLanguage : Language where
  strip s := String.ofList ((s.toList.dropWhile isBlank).reverse.dropWhile isBlank).reverse
  upper s := String.ofList (s.toList.map Char.toUpper)
  lower s := String.ofList (s.toList.map Char.toLower)
  str _ := ""
  int _ := none
  percent _ := ""
  sha256 _ := ""
  taipeiDate t := t.date
  strip_eq s h := by
    have hprintable : ∀ cs : List Char, (∀ c ∈ cs, '!' ≤ c ∧ c ≤ '~') → cs.dropWhile isBlank = cs := by
      intro cs hcs
      cases cs with
      | nil => rfl
      | cons c cs =>
        obtain ⟨hlo, hhi⟩ := hcs c List.mem_cons_self
        refine List.dropWhile_cons_of_neg ?_
        have hlo' : 33 ≤ c.toNat := hlo
        have hhi' : c.toNat ≤ 126 := hhi
        simp only [isBlank, Bool.or_eq_true, beq_iff_eq, decide_eq_true_eq, not_or, not_and]
        refine ⟨?_, ?_, ?_, ?_, ?_⟩
        · rintro rfl
          exact absurd hlo' (by decide)
        · intro _ hr
          have hr' : c.toNat ≤ 13 := hr
          omega
        · intro _ hr
          have hr' : c.toNat ≤ 31 := hr
          omega
        · rintro rfl
          exact absurd hhi' (by decide)
        · rintro rfl
          exact absurd hhi' (by decide)
    have hall : ∀ c ∈ s.toList, '!' ≤ c ∧ c ≤ '~' :=
      fun c hc => of_decide_eq_true (List.all_eq_true.mp h c hc)
    rw [hprintable _ hall, hprintable _ fun c hc => hall c (List.mem_reverse.mp hc),
      List.reverse_reverse, String.ofList_toList]
  lower_eq s h := by
    unfold isSourceName at h
    rw [Bool.and_eq_true, List.all_eq_true] at h
    have hlower : ∀ c ∈ s.toList, c.toLower = id c := by
      intro c hc
      have hchar := h.2 c hc
      simp only [Char.isDigit, Bool.or_eq_true, Bool.and_eq_true, decide_eq_true_eq, beq_iff_eq] at hchar
      unfold Char.toLower
      refine dif_neg ?_
      rintro ⟨hA, hZ⟩
      have hA' : 65 ≤ c.toNat := hA
      have hZ' : c.toNat ≤ 90 := hZ
      rcases hchar with ⟨h0, h9⟩ | ⟨ha, hz⟩ | rfl
      · have h9' : c.toNat ≤ 57 := h9
        omega
      · have ha' : 97 ≤ c.toNat := ha
        omega
      · exact absurd hZ' (by decide)
    rw [List.map_congr_left hlower, List.map_id, String.ofList_toList]

/-- The default limits; the texts here are ASCII. -/
def defaultLimits : Limits := ⟨5000, 1000000, fun v => v.dumps.length⟩

def closingRow (symbol : BoundedText 1 50) : MarketEODRow where
  symbol
  sourceSymbol := none
  tradeDate := ⟨2024, 1, 2, by decide⟩
  name := none
  currency := none
  open_ := none
  high := none
  low := none
  close := ⟨⟨false, 105, -1⟩, Dec.value_nonneg rfl⟩
  volume := some 10
  turnover := none
  totalTicks := none
  ohlcBounds := rfl

/-- A batch of rows of one day. -/
def closingBatch (count : Nat) : IngressBatch where
  dataDate := ⟨2024, 1, 2, by decide⟩
  declaredRecordCount := count
  sourceRawRef := none
  sourceRawSha256 := none
  rawSha256 := rawSha256_none
  deliveryMode := .fullSnapshot
  coverageStartDate := none
  coverageEndDate := none
  sequence := none
  sequenceCount := none
  sequences := ⟨rfl, fun s hs => by cases hs⟩
  coverage := ⟨rfl, fun s hs => by cases hs⟩
  backfill := fun h => by cases h

/-- One symbol in two spellings. -/
def twoSpellings : MarketEODPayload defaultLimits where
  batch := closingBatch 2
  data := [closingRow ⟨"abc", by decide⟩, closingRow ⟨"ABC", by decide⟩]
  itemCount := by decide
  declared := rfl
  covered := by
    rintro ⟨row, hrow, hne⟩
    rcases List.mem_pair.mp hrow with rfl | rfl <;> exact absurd rfl hne
  naturalKeys := by decide
  size := by decide +kernel

/-- A separator that the ingress keeps and `str.strip` removes. -/
def separatorSymbol : MarketEODPayload defaultLimits where
  batch := closingBatch 1
  data := [closingRow ⟨"\x1c", by decide⟩]
  itemCount := by decide
  declared := rfl
  covered := by
    rintro ⟨row, hrow, hne⟩
    cases List.mem_singleton.mp hrow
    exact absurd rfl hne
  naturalKeys := by decide
  size := by decide +kernel

theorem not_clean_spellings :
    ¬ EodClean asciiLanguage (ingestConfig "US" "equity" (some "USD") ⟨"twelve_data", by decide⟩)
        twoSpellings ∧
    ¬ EodClean asciiLanguage (ingestConfig "US" "equity" (some "USD") ⟨"twelve_data", by decide⟩)
        separatorSymbol := by
  rw [eodClean_iff, eodClean_iff]
  constructor
  · rintro ⟨_, hpairs⟩
    have h := (List.pairwise_cons.mp hpairs).1 _ (List.mem_singleton_self _)
    exact h rfl (by decide +kernel)
  · rintro ⟨hkept, _⟩
    have h := hkept _ (List.mem_singleton_self _)
    exact absurd h (by decide +kernel)

end FinDB.Normalize
