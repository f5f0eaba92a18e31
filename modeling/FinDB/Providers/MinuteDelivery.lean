import FinDB.Providers.MinuteBars

/-! # Minute requests are delivered

Which of the requests of the adapter the ingress accepts. The adapter looks at the ends of
the bars and writes its identity in ASCII; the ingress looks at their starts and writes the
identity as it reads it. -/
namespace FinDB.Providers.Shioaji
open FinDB.Lib FinDB.Normalize

/-! ## A request that was built -/

/-- The arguments passed their checks, and each bar was emitted. -/
structure Run (lib : Platform) (input : Input) (r : Request) where
  symbol : String
  items : List (Emission lib symbol input.targetDate)
  bars : items.map Emission.bar = input.kbars.bars
  distinct : (items.map fun e => e.row.barEndTime).Nodup
  symbols : input.symbols = [symbol]
  printable : Printable symbol
  length : 1 ≤ symbol.length ∧ symbol.length ≤ 50
  key : validDatasetKey input.datasetKey = true
  usage : 0 ≤ input.usageBeforeRequests ∧ input.usageBeforeRequests ≤ input.usageAfterRequests
  sequence : 1 ≤ input.sequence.toNat ∧ input.sequence.toNat ≤ input.sequenceCount.toNat ∧
    input.sequenceCount.toNat ≤ 99999
  snapshot : 1 ≤ input.snapshotId.length ∧ input.snapshotId.length ≤ 100
  update : input.dailyUpdateId.length ≤ 100
  univ : input.universeId.length ≤ 100
  filled : items ≠ []
  count : items.length ≤ 15000
  seen : List String
  request : r = requestOf lib input symbol
    ⟨items.map Emission.row, items.flatMap Emission.anomalies, seen⟩

section
variable {lib : Platform} {input : Input} {r : Request}

theorem length_bars (kbars : Kbars) : kbars.bars.length = (kbars.cells "ts").length := by
  unfold Kbars.bars
  rw [List.length_map, List.length_range]

theorem build_ok (h : buildMarketMinuteRequest lib input = .ok r) : Nonempty (Run lib input r) := by
  obtain ⟨symbol, hcheck, h⟩ := ok_bind h
  obtain ⟨built, hbuilt, h⟩ := ok_bind h
  have hr := ok_pure h
  obtain ⟨_, hkey, hcheck⟩ := ok_bind hcheck
  obtain ⟨_, -, hcheck⟩ := ok_bind hcheck
  obtain ⟨_, hvalid, hcheck⟩ := ok_bind hcheck
  obtain ⟨_, husage, hcheck⟩ := ok_bind hcheck
  obtain ⟨_, hmono, hcheck⟩ := ok_bind hcheck
  obtain ⟨_, hsequence, hcheck⟩ := ok_bind hcheck
  obtain ⟨_, hidentity, hcheck⟩ := ok_bind hcheck
  obtain ⟨_, -, hcheck⟩ := ok_bind hcheck
  obtain ⟨_, -, hcheck⟩ := ok_bind hcheck
  obtain ⟨_, -, hcheck⟩ := ok_bind hcheck
  obtain ⟨_, hcount, hcheck⟩ := ok_bind hcheck
  obtain ⟨_, hfilled, hcheck⟩ := ok_bind hcheck
  have hsymbols : input.symbols = [symbol] := by
    split at hcheck
    · rename_i hs
      cases ok_pure hcheck
      exact hs
    · cases hcheck
  simp only [ensure_ok, decide_eq_true_eq, hsymbols, List.all_cons, List.all_nil, Bool.and_true,
    Bool.and_eq_true] at hkey hvalid husage hmono hsequence hidentity hcount hfilled
  unfold validSymbol at hvalid
  rw [Bool.and_eq_true, decide_eq_true_eq] at hvalid
  obtain ⟨hprintable, hpos⟩ := alphanumeric_printable hvalid.2 rfl
  obtain ⟨hsnapshot, hupdate, huniverse⟩ := hidentity
  simp only [validIdentity, decide_eq_true_eq] at hsnapshot hupdate huniverse
  obtain ⟨items, hbars, -, hrows, hanomalies, hnodup, -⟩ := foldlM_addBar_ok hbuilt
  have hlength : items.length = (input.kbars.cells "ts").length := by
    rw [← length_bars, ← hbars, List.length_map]
  refine ⟨{
    symbol
    items
    bars := hbars
    distinct := hnodup
    symbols := hsymbols
    printable := hprintable
    length := ⟨hpos, hvalid.1⟩
    key := hkey
    usage := ⟨husage.1, hmono⟩
    sequence := by omega
    snapshot := hsnapshot
    update := hupdate.2
    univ := huniverse.2
    filled := fun hnil => hfilled (by rw [← hlength, hnil]; rfl)
    count := hlength ▸ hcount
    seen := built.seenEnds
    request := ?_ }⟩
  rw [hr]
  obtain ⟨rows, anomalies, seen⟩ := built
  cases hrows
  cases hanomalies
  rfl

/-! ## The condition -/

/-- The kinds of snapshots whose requests are refused are left out. -/
structure Deliverable (lib : Platform) (input : Input) : Prop where
  key : isLowerKey input.datasetKey = true ∧ input.datasetKey.length ≤ 50
  snapshot : lib.strip input.snapshotId = input.snapshotId ∧
    ∀ c ∈ input.snapshotId.toList, c.toNat < 127
  names : lib.strip input.dailyUpdateId ≠ "" ∧ lib.strip input.universeId ≠ ""
  usage : input.usageAfterRequests ≤ 50
  minutes : ∀ bar ∈ input.kbars.bars, ∀ end_ start, barEnd bar.ts = .ok end_ →
    barStart end_ = .ok start →
      (lib.utc end_).toMicros = (lib.utc start).toMicros + oneMinute ∧
        lib.taipeiDate (lib.utc start) = input.targetDate
  volumes : ∀ bar ∈ input.kbars.bars, ∀ n, volumeOf lib bar.volume = .ok (some n) →
    jsonInteger n = true
  evidence : ∀ bar ∈ input.kbars.bars, ∀ c ∈ bar.malformed lib,
    lib.strip (evidence c.2) = evidence c.2
  count : (input.kbars.bars.flatMap (Bar.malformed lib)).length ≤ 15000

/-- The limits of the source's row count and payload size are kept. -/
structure WithinLimits (lib : Platform) (limits : Limits) (r : Request) : Prop where
  items : r.data.length ≤ limits.maxDataItems
  bytes : ∀ parts, readParts lib r = some parts →
    limits.payloadBytes (dumpMinute parts.batch parts.statuses parts.data) ≤ limits.maxPayloadBytes

/-- The identity as the adapter writes it. -/
def adapterIdentity (input : Input) : String :=
  identityText writeString input.targetDate.isoformat input.datasetKey input.sequence.toNat
    input.snapshotId

/-- The identity as the ingress writes it. -/
def ingressIdentity (lib : Platform) (input : Input) : String :=
  identityText writePlain input.targetDate.isoformat input.datasetKey input.sequence.toNat
    (lib.strip input.snapshotId)

/-- SHA-256 keeps apart the texts whose digests are compared. -/
structure NoCollision (lib : Platform) (input : Input) : Prop where
  identity : lib.sha256 (adapterIdentity input) = lib.sha256 (ingressIdentity lib input) →
    adapterIdentity input = ingressIdentity lib input
  evidence : ∀ bar ∈ input.kbars.bars, ∀ c ∈ bar.malformed lib,
    lib.sha256 (evidence c.2) = lib.sha256 (lib.strip (evidence c.2)) →
      evidence c.2 = lib.strip (evidence c.2)

/-! ## Identities -/

theorem escapeChar_plain {c : Char} (h : c.toNat < 127) : escapePlain c = escapeChar c := by
  unfold escapePlain
  rw [if_neg (Nat.not_le.mpr h)]

/-- Outside ASCII the adapter writes an escape. -/
theorem length_escapePlain (c : Char) :
    1 ≤ (escapePlain c).length ∧ (escapePlain c).length ≤ (escapeChar c).length ∧
      ((escapePlain c).length = (escapeChar c).length → c.toNat < 127) := by
  by_cases h : c.toNat < 127
  · rw [escapeChar_plain h]
    obtain ⟨d, cs, he, -⟩ := escapeChar_head c
    rw [he]
    exact ⟨Nat.succ_pos _, Nat.le_refl _, fun _ => h⟩
  · have hlong : 6 ≤ (escapeChar c).length := by
      unfold escapeChar
      split_ifs
      any_goals omega
      · subst c
        exact absurd (by decide) h
      · subst c
        exact absurd (by decide) h
      · simp only [List.length_cons, length_numeral]
        decide
      · simp only [List.length_cons, List.length_append, length_numeral]
        decide
    unfold escapePlain
    rw [if_pos (Nat.not_lt.mp h)]
    refine ⟨Nat.le_refl _, by simp only [List.length_singleton]; omega, fun he => ?_⟩
    simp only [List.length_singleton] at he
    omega

theorem length_flatMap_escapePlain (cs : List Char) :
    cs.length ≤ (cs.flatMap escapePlain).length ∧
      (cs.flatMap escapePlain).length ≤ (cs.flatMap escapeChar).length ∧
      ((cs.flatMap escapePlain).length = (cs.flatMap escapeChar).length →
        ∀ c ∈ cs, c.toNat < 127) := by
  induction cs with
  | nil => exact ⟨Nat.le_refl _, Nat.le_refl _, fun _ c hc => absurd hc List.not_mem_nil⟩
  | cons c cs ih =>
    obtain ⟨hpos, hle, heq⟩ := length_escapePlain c
    obtain ⟨hlen, hles, heqs⟩ := ih
    simp only [List.flatMap_cons, List.length_append, List.length_cons]
    refine ⟨by omega, by omega, fun h => List.forall_mem_cons.mpr ⟨heq (by omega), heqs (by omega)⟩⟩

/-- The two sides write a text alike when it has nothing to strip and is ASCII. -/
theorem write_eq_iff (s : String) :
    s.toList.flatMap escapeChar = (lib.strip s).toList.flatMap escapePlain ↔
      lib.strip s = s ∧ ∀ c ∈ s.toList, c.toNat < 127 := by
  constructor
  · intro h
    obtain ⟨before, after, hs⟩ := lib.strip_infix s
    have hlength := congrArg List.length h
    rw [← hs] at hlength
    simp only [List.flatMap_append, List.length_append] at hlength
    obtain ⟨-, hle, heq⟩ := length_flatMap_escapePlain (lib.strip s).toList
    have hbefore := length_escape before
    have hafter := length_escape after
    have hnil : before = [] ∧ after = [] :=
      ⟨List.length_eq_zero_iff.mp (by omega), List.length_eq_zero_iff.mp (by omega)⟩
    rw [hnil.1, hnil.2, List.nil_append, List.append_nil] at hs
    have hstrip : lib.strip s = s := String.toList_inj.mp hs
    exact ⟨hstrip, hs ▸ heq (by omega)⟩
  · rintro ⟨hstrip, hascii⟩
    rw [hstrip]
    exact (List.flatMap_congr fun c hc => (escapeChar_plain (hascii c hc)).symm)

theorem writePlain_ascii {s : String} (h : ∀ c ∈ s.toList, c.toNat < 127) :
    writePlain s = writeString s := by
  unfold writePlain writeString
  rw [List.flatMap_congr fun c hc => escapeChar_plain (h c hc)]

theorem Printable.ascii {s : String} (h : Printable s) : ∀ c ∈ s.toList, c.toNat < 127 := by
  intro c hc
  have hle : c.toNat ≤ 126 := (of_decide_eq_true (List.all_eq_true.mp h c hc)).2
  omega

theorem datasetKey_printable (h : validDatasetKey input.datasetKey = true) :
    Printable input.datasetKey ∧ 1 ≤ input.datasetKey.length :=
  alphanumeric_printable h rfl

theorem isoformat_ascii (d : CivilDate) : ∀ c ∈ d.isoformat.toList, c.toNat < 127 := by
  have hnumeral : ∀ width n, ∀ c ∈ numeral 10 width n, c.toNat < 127 := by
    intro width n c hc
    obtain ⟨k, hk, rfl⟩ := mem_numeral (by decide) hc
    have hall : ∀ k < 10, (Nat.digitChar k).toNat < 127 := by decide
    exact hall k hk
  intro c hc
  unfold CivilDate.isoformat CivilDate.isoChars at hc
  simp only [String.toList_ofList, List.mem_append, List.mem_cons] at hc
  rcases hc with hc | rfl | hc | rfl | hc
  · exact hnumeral _ _ c hc
  · decide
  · exact hnumeral _ _ c hc
  · decide
  · exact hnumeral _ _ c hc

theorem identity_eq_iff (hkey : validDatasetKey input.datasetKey = true) :
    adapterIdentity input = ingressIdentity lib input ↔
      lib.strip input.snapshotId = input.snapshotId ∧
        ∀ c ∈ input.snapshotId.toList, c.toNat < 127 := by
  unfold adapterIdentity ingressIdentity identityText
  rw [writePlain_ascii (datasetKey_printable hkey).1.ascii, writePlain_ascii (isoformat_ascii _),
    String.ofList_inj]
  simp only [List.append_cancel_left_eq, List.append_cancel_right_eq]
  unfold writeString writePlain
  rw [List.cons.injEq, List.append_cancel_right_eq, ← write_eq_iff]
  exact ⟨fun h => h.2, fun h => ⟨rfl, h⟩⟩

/-! ## The parts of the payload -/

namespace Run

/-- Each anomaly with the emission it is of. -/
def evidences (run : Run lib input r) :
    List (Emission lib run.symbol input.targetDate × AnomalyField × Cell) :=
  run.items.flatMap fun e => (e.bar.malformed lib).map fun c => (e, c)

theorem mem_evidences (run : Run lib input r)
    {p : Emission lib run.symbol input.targetDate × AnomalyField × Cell} :
    p ∈ run.evidences ↔ p.1 ∈ run.items ∧ p.2 ∈ p.1.bar.malformed lib := by
  obtain ⟨e, c⟩ := p
  simp [evidences]

theorem anomalies_eq (run : Run lib input r) : r.batch.anomalies =
    run.evidences.map fun p => anomalyFor lib run.symbol p.1.row.barStartTime p.2 := by
  refine (congrArg (fun r => r.batch.anomalies) run.request).trans ?_
  unfold requestOf evidences
  rw [List.map_flatMap]
  dsimp only
  refine List.flatMap_congr fun e _ => ?_
  rw [e.anomalies_eq, List.map_map]
  rfl

/-- The emissions in the order of the rows. -/
def sorted (run : Run lib input r) : List (Emission lib run.symbol input.targetDate) :=
  run.items.insertionSort fun a b => a.row.barEndTime ≤ b.row.barEndTime

theorem sorted_perm (run : Run lib input r) : run.sorted.Perm run.items :=
  List.perm_insertionSort _ _

theorem mem_sorted (run : Run lib input r) {e : Emission lib run.symbol input.targetDate} :
    e ∈ run.sorted ↔ e ∈ run.items := run.sorted_perm.mem_iff

theorem data_eq (run : Run lib input r) : r.data = run.sorted.map Emission.row := by
  refine (congrArg Request.data run.request).trans ?_
  unfold requestOf sorted
  dsimp only
  exact (List.map_insertionSort (fun a b => a.row.barEndTime ≤ b.row.barEndTime)
    (fun a b : Row => a.barEndTime ≤ b.barEndTime) Emission.row run.items fun a _ b _ => Iff.rfl).symm

theorem length_data (run : Run lib input r) : r.data.length = run.items.length := by
  rw [run.data_eq, List.length_map, run.sorted_perm.length_eq]

/-- The status of the symbol. -/
def status (run : Run lib input r) : MinuteSymbolStatus :=
  ⟨⟨run.symbol, run.length⟩, .data, none, iff_of_true rfl rfl⟩

theorem statuses_ok (run : Run lib input r) :
    r.symbolStatuses.mapM (validateStatus lib) = some [run.status] := by
  have hne : r.data.isEmpty = false := by
    rw [List.isEmpty_eq_false_iff, ← List.length_pos_iff, run.length_data]
    exact List.length_pos_iff.mpr run.filled
  have hstatuses : r.symbolStatuses = [⟨run.symbol, .data, none⟩] := by
    rw [congrArg Request.data run.request] at hne
    refine (congrArg Request.symbolStatuses run.request).trans ?_
    unfold requestOf at hne ⊢
    dsimp only at hne ⊢
    rw [hne]
    rfl
  have hstatus : validateStatus lib ⟨run.symbol, .data, none⟩ = some run.status := by
    unfold validateStatus
    simp only [strippedText_printable lib 1 50 run.printable run.length, readNullable,
      Option.bind_eq_bind, Option.bind_some]
    rfl
  rw [hstatuses, List.mapM_cons, hstatus]
  rfl

/-- What the ingress keeps of the batch. -/
structure Kept (run : Run lib input r) (b : MarketMinuteBatch lib.toLanguage) : Prop where
  dataDate : b.dataDate = input.targetDate
  declared : b.declaredRecordCount = run.items.length
  coverage : b.coverageStartDate = input.targetDate ∧ b.coverageEndDate = input.targetDate
  snapshotId : b.snapshotId.text = lib.strip input.snapshotId
  symbolsSha256 : b.symbolsSha256 = lib.sha256 (symbolsText [run.symbol])
  sequence : b.sequence = input.sequence.toNat
  usage : b.providerUsageBefore.isNone = false
  anomalies : r.batch.anomalies.mapM (validateAnomaly lib) = some b.anomalies

theorem validateUsage_ok {u : Usage} (h : u.requestsUsed ≤ u.requestsLimit) :
    ∃ p, validateUsage u = some p ∧ p.requestsUsed = u.requestsUsed ∧
      p.requestsLimit = some u.requestsLimit :=
  ⟨_, dif_pos h, rfl, rfl⟩

theorem validateUsage_le {u : Usage} {p : ProviderUsageSnapshot} (h : validateUsage u = some p) :
    u.requestsUsed ≤ u.requestsLimit := by
  unfold validateUsage at h
  split at h
  · assumption
  · cases h

/-- A name is kept as it is stripped. -/
theorem strippedText_ne {s : String} {b : BoundedText 1 100} (h : strippedText lib 1 100 s = some b) :
    lib.strip s ≠ "" := by
  intro hempty
  have hlength := b.bounds.1
  rw [strippedText_eq_some.mp h, hempty] at hlength
  exact absurd hlength (by decide)

theorem exists_strippedText {s : String} (hlength : s.length ≤ 100) (hne : lib.strip s ≠ "") :
    ∃ b, strippedText lib 1 100 s = some b := by
  have hle : (lib.strip s).length ≤ s.length := by
    rw [← String.length_toList, ← String.length_toList]
    exact (lib.strip_infix s).length_le
  have hpos : 1 ≤ (lib.strip s).length := by
    rw [← String.length_toList]
    exact List.length_pos_iff.mpr fun hnil => hne (String.toList_inj.mp hnil)
  exact ⟨⟨lib.strip s, hpos, hle.trans hlength⟩, strippedText_eq_some.mpr rfl⟩

/-- The checks of the batch that a run can fail. -/
theorem validateMinuteBatch_run (run : Run lib input r) :
    (∀ b, validateMinuteBatch lib r.batch = some b → run.Kept b ∧
      (lib.strip input.dailyUpdateId ≠ "" ∧ lib.strip input.universeId ≠ "") ∧
      input.usageAfterRequests ≤ 50 ∧ b.anomalies.length ≤ 15000) ∧
    (∀ anomalies, r.batch.anomalies.mapM (validateAnomaly lib) = some anomalies →
      anomalies.length ≤ 15000 → lib.strip input.snapshotId ≠ "" →
      lib.strip input.dailyUpdateId ≠ "" ∧ lib.strip input.universeId ≠ "" →
      input.usageAfterRequests ≤ 50 → ∃ b, validateMinuteBatch lib r.batch = some b) := by
  have hdate : r.batch.dataDate = input.targetDate.isoformat :=
    congrArg (fun r => r.batch.dataDate) run.request
  have hstart : r.batch.coverageStartDate = input.targetDate.isoformat :=
    congrArg (fun r => r.batch.coverageStartDate) run.request
  have hend : r.batch.coverageEndDate = input.targetDate.isoformat :=
    congrArg (fun r => r.batch.coverageEndDate) run.request
  have hsnapshot : r.batch.snapshotId = input.snapshotId :=
    congrArg (fun r => r.batch.snapshotId) run.request
  have hupdate : r.batch.dailyUpdateId = input.dailyUpdateId :=
    congrArg (fun r => r.batch.dailyUpdateId) run.request
  have huniverse : r.batch.universeId = input.universeId :=
    congrArg (fun r => r.batch.universeId) run.request
  have hbefore : r.batch.providerUsageBefore = ⟨input.usageBeforeRequests.toNat, 50⟩ :=
    congrArg (fun r => r.batch.providerUsageBefore) run.request
  have hafter : r.batch.providerUsageAfter = ⟨input.usageAfterRequests.toNat, 50⟩ :=
    congrArg (fun r => r.batch.providerUsageAfter) run.request
  have hmode : r.batch.deliveryMode = "sequenced_snapshot" :=
    congrArg (fun r => r.batch.deliveryMode) run.request
  have hsequence : r.batch.sequence = input.sequence.toNat :=
    congrArg (fun r => r.batch.sequence) run.request
  have hcount : r.batch.sequenceCount = input.sequenceCount.toNat :=
    congrArg (fun r => r.batch.sequenceCount) run.request
  have hdeclared : r.batch.declaredRecordCount = run.items.length := by
    rw [← run.length_data]
    exact (congrArg (fun r => r.batch.declaredRecordCount) run.request).trans
      (congrArg (fun r => r.data.length) run.request).symm
  have hsymbols : r.batch.symbolsSha256 = lib.sha256 (symbolsText [run.symbol]) :=
    (congrArg (fun r => r.batch.symbolsSha256) run.request).trans
      (congrArg (fun s => lib.sha256 (symbolsText s)) run.symbols)
  have hhex := lib.sha256_hex (symbolsText [run.symbol])
  have hdigest := lib.strip_eq _ (isSha256_printable hhex).1
  obtain ⟨husage0, hmono⟩ := run.usage
  unfold validateMinuteBatch
  simp only [hdate, hstart, hend, hsnapshot, hupdate, huniverse, hbefore, hafter, hmode, hsequence,
    hcount, hdeclared, hsymbols, hdigest, hhex, CivilDate.fromisoformat_isoformat,
    Option.bind_eq_bind, Option.bind_some, true_and, and_self]
  constructor
  · intro b hb
    obtain ⟨snapshotId, hsnapshotId, hb⟩ := Option.bind_eq_some_iff.mp hb
    obtain ⟨dailyUpdateId, hdailyUpdateId, hb⟩ := Option.bind_eq_some_iff.mp hb
    obtain ⟨universeId, huniverseId, hb⟩ := Option.bind_eq_some_iff.mp hb
    obtain ⟨before, hbeforeUsage, hb⟩ := Option.bind_eq_some_iff.mp hb
    obtain ⟨after, hafterUsage, hb⟩ := Option.bind_eq_some_iff.mp hb
    obtain ⟨anomalies, hanomalies, hb⟩ := Option.bind_eq_some_iff.mp hb
    split at hb
    · rename_i hvalid
      cases hb
      have hlimit : input.usageAfterRequests.toNat ≤ 50 := validateUsage_le hafterUsage
      exact ⟨⟨rfl, rfl, ⟨rfl, rfl⟩, strippedText_eq_some.mp hsnapshotId, rfl, rfl, rfl, hanomalies⟩,
        ⟨strippedText_ne hdailyUpdateId, strippedText_ne huniverseId⟩, by omega, hvalid.2.2⟩
    · cases hb
  · intro anomalies hanomalies hbound hsnapshot hnames hlimit
    obtain ⟨snapshotId, hsnapshotId⟩ := exists_strippedText run.snapshot.2 hsnapshot
    obtain ⟨dailyUpdateId, hdailyUpdateId⟩ := exists_strippedText run.update hnames.1
    obtain ⟨universeId, huniverseId⟩ := exists_strippedText run.univ hnames.2
    obtain ⟨before, hbeforeUsage, hbeforeUsed, hbeforeLimit⟩ :=
      @validateUsage_ok ⟨input.usageBeforeRequests.toNat, 50⟩ (by dsimp only; omega)
    obtain ⟨after, hafterUsage, hafterUsed, hafterLimit⟩ :=
      @validateUsage_ok ⟨input.usageAfterRequests.toNat, 50⟩ (by dsimp only; omega)
    simp only [hsnapshotId, hdailyUpdateId, huniverseId, hbeforeUsage, hafterUsage, hanomalies,
      Option.bind_some]
    refine ⟨_, dif_pos ⟨run.sequence, ⟨?_, ?_⟩, hbound⟩⟩
    · rw [hbeforeUsed, hafterUsed]
      dsimp only
      omega
    · rw [hbeforeLimit, hafterLimit]

/-! ## The request at the ingress -/

theorem readParts_batch {parts : Parts lib.toLanguage} (h : readParts lib r = some parts) :
    validateMinuteBatch lib r.batch = some parts.batch ∧
      r.symbolStatuses.mapM (validateStatus lib) = some parts.statuses ∧
      r.data.mapM (validateMinuteRow lib) = some parts.data := by
  obtain ⟨batch, hbatch, h⟩ := Option.bind_eq_some_iff.mp h
  obtain ⟨statuses, hstatuses, h⟩ := Option.bind_eq_some_iff.mp h
  obtain ⟨data, hdata, h⟩ := Option.bind_eq_some_iff.mp h
  cases h
  exact ⟨hbatch, hstatuses, hdata⟩

theorem validateMinutePayload_ok {limits : Limits} {payload : MarketMinutePayload lib.toLanguage limits}
    (h : validateMinutePayload lib limits r = some payload) : ∃ parts, readParts lib r = some parts ∧
      payloadChecks lib limits parts.batch parts.statuses parts.data ∧
      payload.batch = parts.batch := by
  obtain ⟨parts, hparts, h⟩ := Option.bind_eq_some_iff.mp h
  split at h
  · rename_i hchecks
    cases h
    exact ⟨parts, hparts, hchecks, rfl⟩
  · cases h

theorem exists_validateMinutePayload {limits : Limits} {parts : Parts lib.toLanguage}
    (hparts : readParts lib r = some parts)
    (hchecks : payloadChecks lib limits parts.batch parts.statuses parts.data) :
    ∃ payload, validateMinutePayload lib limits r = some payload ∧ payload.batch = parts.batch := by
  unfold validateMinutePayload
  rw [hparts]
  exact ⟨_, dif_pos hchecks, rfl⟩

theorem strippedText_prefixed {key digest : String} (hkey : Printable key ∧ key.length = 4)
    (hhex : isSha256 digest = true) :
    ∃ b, strippedText lib 1 100 (key ++ digest) = some b ∧ b.text = key ++ digest := by
  obtain ⟨hdigest, hlength⟩ := isSha256_printable hhex
  have hprintable : Printable (key ++ digest) := by
    unfold Printable
    rw [String.toList_append, List.all_append, hkey.1, hdigest]
    rfl
  have hbounds : 1 ≤ (key ++ digest).length ∧ (key ++ digest).length ≤ 100 := by
    rw [String.length_append, hkey.2, hlength]
    decide
  exact ⟨_, strippedText_printable lib 1 100 hprintable hbounds, rfl⟩

/-- What is left to check of a request that was built. -/
theorem accepts_iff (run : Run lib input r) (limits : Limits) : accepts lib limits r = true ↔
    ∃ key : BoundedText 1 50, key.text = input.datasetKey ∧ isLowerKey key.text = true ∧
      ∃ parts, readParts lib r = some parts ∧
        payloadChecks lib limits parts.batch parts.statuses parts.data ∧
        lib.sha256 (adapterIdentity input) = lib.sha256 (ingressIdentity lib input) := by
  have hkey : r.datasetKey = input.datasetKey := congrArg Request.datasetKey run.request
  have hsource : r.source = "shioaji" := congrArg Request.source run.request
  have hschema : r.schemaId = "market_minute" := congrArg Request.schemaId run.request
  have hversion : r.schemaVersion = 1 := congrArg Request.schemaVersion run.request
  have hrequest : r.requestKey = "mmr:" ++ lib.sha256 (adapterIdentity input) :=
    congrArg Request.requestKey run.request
  have hidempotency : r.idempotencyKey = "mms:" ++ lib.sha256 (adapterIdentity input) :=
    congrArg Request.idempotencyKey run.request
  have hfetched : readTime r.fetchedAt = some input.fetchedAt := by
    rw [congrArg Request.fetchedAt run.request]
    exact readTime_utcText _
  have hhex := lib.sha256_hex (adapterIdentity input)
  obtain ⟨source, hsourceText, hsourceIs⟩ :
      ∃ b : BoundedText 1 50, strippedText lib 1 50 "shioaji" = some b ∧ b.text = "shioaji" :=
    ⟨_, strippedText_printable lib 1 50 (by unfold Printable; decide) (by decide), rfl⟩
  obtain ⟨requestKey, hrequestText, hrequestIs⟩ :=
    @strippedText_prefixed lib "mmr:" _ (by unfold Printable; decide) hhex
  obtain ⟨idempotencyKey, hidempotencyText, hidempotencyIs⟩ :=
    @strippedText_prefixed lib "mms:" _ (by unfold Printable; decide) hhex
  have hprintable := datasetKey_printable run.key
  -- the ingress reads the fields its digest is computed from
  have hdigest : ∀ (key : BoundedText 1 50) (b : MarketMinuteBatch lib.toLanguage), run.Kept b →
      key.text = input.datasetKey → minuteSequenceKeyDigest lib key.text b.dataDate
        b.snapshotId.text b.sequence = lib.sha256 (ingressIdentity lib input) := by
    intro key b hkept hkeyText
    unfold minuteSequenceKeyDigest ingressIdentity
    rw [hkept.dataDate, hkept.snapshotId, hkept.sequence, hkeyText]
  have hlower : isLowerKey "shioaji" = true := by decide
  unfold accepts validateMinuteRequest
  rw [Option.isSome_iff_exists]
  simp only [hkey, hsource, hschema, hversion, hrequest, hidempotency, hfetched, hsourceText,
    hrequestText, hidempotencyText, hsourceIs, hrequestIs, hidempotencyIs, hlower,
    Option.bind_eq_bind, Option.bind_some, Bool.true_and, Bool.and_true, beq_self_eq_true]
  constructor
  · rintro ⟨payload, h⟩
    obtain ⟨key, hkeyText, h⟩ := Option.bind_eq_some_iff.mp h
    obtain ⟨payload, hpayload, h⟩ := Option.bind_eq_some_iff.mp h
    obtain ⟨parts, hparts, hchecks, hbatch⟩ := validateMinutePayload_ok hpayload
    have hkept := (run.validateMinuteBatch_run.1 _ (readParts_batch hparts).1).1
    have hkeyIs : key.text = input.datasetKey :=
      (strippedText_eq_some.mp hkeyText).trans (lib.strip_eq _ hprintable.1)
    rw [hbatch, hdigest key _ hkept hkeyIs, hkept.usage] at h
    split at h
    · rename_i hvalid
      simp only [Bool.and_eq_true, beq_iff_eq] at hvalid
      obtain ⟨⟨⟨hlowerKey, hprefixed⟩, -⟩, -⟩ := hvalid
      have hchars := congrArg String.toList hprefixed
      rw [String.toList_append, String.toList_append] at hchars
      exact ⟨key, hkeyIs, hlowerKey, parts, hparts, hchecks,
        String.toList_inj.mp (List.append_cancel_left hchars)⟩
    · cases h
  · rintro ⟨key, hkeyIs, hlowerKey, parts, hparts, hchecks, hsame⟩
    have hkept := (run.validateMinuteBatch_run.1 _ (readParts_batch hparts).1).1
    obtain ⟨payload, hpayload, hbatch⟩ := exists_validateMinutePayload hparts hchecks
    have hkeyText : strippedText lib 1 50 input.datasetKey = some key :=
      strippedText_eq_some.mpr (hkeyIs.trans (lib.strip_eq _ hprintable.1).symm)
    refine ⟨payload, ?_⟩
    rw [hkeyText, Option.bind_some, hpayload, Option.bind_some, hbatch, hdigest key _ hkept hkeyIs,
      hkept.usage, hlowerKey, hsame]
    simp

/-! ## Rows and anomalies side by side -/

theorem exists_item (run : Run lib input r) {bar : Bar} (h : bar ∈ input.kbars.bars) :
    ∃ e ∈ run.items, e.bar = bar :=
  List.mem_map.mp (run.bars ▸ h)

theorem bar_mem (run : Run lib input r) {e : Emission lib run.symbol input.targetDate}
    (h : e ∈ run.items) : e.bar ∈ input.kbars.bars :=
  run.bars ▸ List.mem_map_of_mem h

theorem length_evidences (run : Run lib input r) :
    run.evidences.length = (input.kbars.bars.flatMap (Bar.malformed lib)).length := by
  unfold evidences
  rw [← run.bars]
  simp [List.length_flatMap, List.flatMap_map]

theorem rows_validated (run : Run lib input r) {parts : Parts lib.toLanguage}
    (hparts : readParts lib r = some parts) :
    List.Forall₂ (fun e row => validateMinuteRow lib (Emission.row e) = some row) run.sorted
      parts.data := by
  have h := mapM_forall₂ (readParts_batch hparts).2.2
  rw [run.data_eq, List.forall₂_map_left_iff] at h
  exact h

theorem anomalies_validated (run : Run lib input r) {parts : Parts lib.toLanguage}
    (hparts : readParts lib r = some parts) :
    List.Forall₂ (fun p a => validateAnomaly lib
      (anomalyFor lib run.symbol (Emission.row p.1).barStartTime p.2) = some a) run.evidences
      parts.batch.anomalies := by
  have h := mapM_forall₂ (run.validateMinuteBatch_run.1 _ (readParts_batch hparts).1).1.anomalies
  rw [run.anomalies_eq, List.forall₂_map_left_iff] at h
  exact h

/-- A request that is accepted is of a kind that is not refused. -/
theorem deliverable (run : Run lib input r) (hsha : NoCollision lib input) {limits : Limits}
    (h : accepts lib limits r = true) : Deliverable lib input := by
  obtain ⟨key, hkey, hlower, parts, hparts, -, hdigest⟩ := (run.accepts_iff limits).mp h
  obtain ⟨hkept, hnames, hlimit, hcount⟩ :=
    run.validateMinuteBatch_run.1 _ (readParts_batch hparts).1
  have hrows := forall₂_meets (run.rows_validated hparts)
  have hanomalies := run.anomalies_validated hparts
  have hvalid : ∀ e ∈ run.items, e.Aligned ∧ e.FitsJson := by
    intro e he
    obtain ⟨row, -, hrow⟩ := hrows.1 e (run.mem_sorted.mpr he)
    obtain ⟨haligned, hfits, -⟩ := (validateMinuteRow_emitted e run.printable run.length).1 row hrow
    exact ⟨haligned, hfits⟩
  refine ⟨⟨hkey ▸ hlower, hkey ▸ key.bounds.2⟩, (identity_eq_iff run.key).mp (hsha.identity hdigest),
    hnames, hlimit, fun bar hbar end_ start hend hstart => ?_, fun bar hbar n hn => ?_,
    fun bar hbar c hc => ?_, ?_⟩
  · obtain ⟨e, he, rfl⟩ := run.exists_item hbar
    cases hend.symm.trans e.barEnd
    cases hstart.symm.trans e.barStart
    exact (hvalid e he).1
  · obtain ⟨e, he, rfl⟩ := run.exists_item hbar
    have hfits := (hvalid e he).2
    have hvolume := Except.ok.inj (e.volume.symm.trans hn)
    unfold Emission.FitsJson at hfits
    rw [hvolume, Option.all_some] at hfits
    exact hfits
  · obtain ⟨e, he, rfl⟩ := run.exists_item hbar
    obtain ⟨a, -, ha⟩ := (forall₂_meets hanomalies).1 (e, c) (run.mem_evidences.mpr ⟨he, hc⟩)
    have hsame := ((validateAnomaly_emitted e run.printable run.length c).1 a ha).1
    exact (hsha.evidence _ (run.bar_mem he) c hc hsame).symm
  · rw [← run.length_evidences, hanomalies.length_eq]
    exact hcount

section
variable (hd : Deliverable lib input)
include hd

theorem aligned (run : Run lib input r) {e : Emission lib run.symbol input.targetDate}
    (he : e ∈ run.items) : e.Aligned ∧ e.FitsJson := by
  refine ⟨hd.minutes _ (run.bar_mem he) _ _ e.barEnd e.barStart, ?_⟩
  have hvolume := hd.volumes _ (run.bar_mem he)
  unfold Emission.FitsJson
  cases hrow : e.row.volume with
  | none => rfl
  | some n =>
    rw [Option.all_some]
    exact hvolume n (by rw [← hrow]; exact e.volume)

/-- No two bars start together: their ends are a minute later and do not repeat. -/
theorem starts_distinct (run : Run lib input r) :
    (run.items.map fun e => lib.utc e.start).Nodup := by
  have hends := run.distinct
  rw [List.Nodup, List.pairwise_map] at hends ⊢
  refine hends.imp_of_mem fun {a b} ha hb hne hstart => hne ?_
  have hmicros : (lib.utc a.end_).toMicros = (lib.utc b.end_).toMicros := by
    rw [(run.aligned hd ha).1.1, (run.aligned hd hb).1.1, hstart]
  have hsame : lib.utc a.end_ = lib.utc b.end_ :=
    Option.some.inj ((UtcTime.ofMicros_eq_some.mpr rfl).symm.trans
      (UtcTime.ofMicros_eq_some.mpr hmicros.symm))
  rw [a.times.2.1, b.times.2.1, hsame]

theorem exists_parts (run : Run lib input r) : ∃ parts, readParts lib r = some parts := by
  have hne : lib.strip input.snapshotId ≠ "" := by
    intro hempty
    have hpos := run.snapshot.1
    rw [← hd.snapshot.1, hempty] at hpos
    exact absurd hpos (by decide)
  obtain ⟨anomalies, hanomalies⟩ :
      ∃ anomalies, r.batch.anomalies.mapM (validateAnomaly lib) = some anomalies := by
    refine exists_mapM_some.mpr fun a ha => ?_
    rw [run.anomalies_eq] at ha
    obtain ⟨⟨e, c⟩, hp, rfl⟩ := List.mem_map.mp ha
    obtain ⟨he, hc⟩ := run.mem_evidences.mp hp
    exact (validateAnomaly_emitted e run.printable run.length c).2
      (hd.evidence _ (run.bar_mem he) c hc)
  have hcount : anomalies.length ≤ 15000 := by
    rw [← (mapM_forall₂ hanomalies).length_eq, run.anomalies_eq, List.length_map,
      run.length_evidences]
    exact hd.count
  obtain ⟨batch, hbatch⟩ :=
    run.validateMinuteBatch_run.2 anomalies hanomalies hcount hne hd.names hd.usage
  obtain ⟨data, hdata⟩ : ∃ data, r.data.mapM (validateMinuteRow lib) = some data := by
    refine exists_mapM_some.mpr fun row hrow => ?_
    rw [run.data_eq] at hrow
    obtain ⟨e, he, rfl⟩ := List.mem_map.mp hrow
    obtain ⟨haligned, hfits⟩ := run.aligned hd (run.mem_sorted.mp he)
    exact (validateMinuteRow_emitted e run.printable run.length).2 haligned hfits
  refine ⟨⟨batch, [run.status], data⟩, ?_⟩
  unfold readParts
  rw [hbatch, run.statuses_ok, hdata]
  rfl

variable {parts : Parts lib.toLanguage} (hparts : readParts lib r = some parts)
include hparts

omit hd in
theorem rows_kept (run : Run lib input r) : List.Forall₂ Keeps run.sorted parts.data :=
  (run.rows_validated hparts).imp fun e row h =>
    ((validateMinuteRow_emitted e run.printable run.length).1 row h).2.2

omit hd in
theorem anomalies_kept (run : Run lib input r) : List.Forall₂ (fun p a =>
    a.symbol.text = run.symbol ∧ a.barStartTime = lib.utc (Emission.start p.1) ∧ a.field = p.2.1)
    run.evidences parts.batch.anomalies :=
  (run.anomalies_validated hparts).imp fun p a h =>
    ((validateAnomaly_emitted p.1 run.printable run.length p.2).1 a h).2

/-- One row a minute. -/
theorem naturalKeys (run : Run lib input r) :
    (parts.data.map fun row => (row.symbol.text, row.barStartTime)).Nodup := by
  have hkeys : (run.sorted.map fun e => (run.symbol, lib.utc e.start)) =
      parts.data.map fun row => (row.symbol.text, row.barStartTime) := by
    rw [← List.forall₂_eq_eq_eq, List.forall₂_map_left_iff, List.forall₂_map_right_iff]
    exact (run.rows_kept hparts).imp fun e row h => by rw [h.symbol, h.start]
  rw [← hkeys, (run.sorted_perm.map _).nodup_iff]
  have hstarts := run.starts_distinct hd
  rw [List.Nodup, List.pairwise_map] at hstarts ⊢
  exact hstarts.imp fun hne h => hne (Prod.ext_iff.mp h).2

/-- One anomaly a minute and field. -/
theorem anomalyKeys (run : Run lib input r) :
    (parts.batch.anomalies.map fun a => (a.symbol.text, a.barStartTime, a.field)).Nodup := by
  have hkeys : (run.evidences.map fun p => (run.symbol, lib.utc p.1.start, p.2.1)) =
      parts.batch.anomalies.map fun a => (a.symbol.text, a.barStartTime, a.field) := by
    rw [← List.forall₂_eq_eq_eq, List.forall₂_map_left_iff, List.forall₂_map_right_iff]
    exact (run.anomalies_kept hparts).imp fun p a h => by rw [h.1, h.2.1, h.2.2]
  rw [← hkeys]
  unfold evidences
  rw [List.map_flatMap, List.nodup_flatMap]
  refine ⟨fun e _ => ?_, ?_⟩
  · -- the two fields of a bar
    rw [List.map_map]
    unfold Bar.malformed
    refine List.Nodup.of_map Prod.snd (List.Nodup.of_map Prod.snd ?_)
    rw [List.map_map, List.map_map]
    refine List.Sublist.nodup (List.filter_sublist.map _) ?_
    change [AnomalyField.volume, AnomalyField.turnover].Nodup
    decide
  · have hstarts := run.starts_distinct hd
    rw [List.Nodup, List.pairwise_map] at hstarts
    refine hstarts.imp fun {a b} hne => ?_
    rw [Function.onFun_apply, List.disjoint_left]
    intro k ha hb
    simp only [List.map_map, List.mem_map, Function.comp_apply] at ha hb
    obtain ⟨_, -, rfl⟩ := ha
    obtain ⟨_, -, hk⟩ := hb
    exact hne (Prod.ext_iff.mp (Prod.ext_iff.mp hk).2).1.symm

/-- The parts of a deliverable request pass the checks between them. -/
theorem checks (run : Run lib input r) {limits : Limits} (hlimits : WithinLimits lib limits r) :
    payloadChecks lib limits parts.batch parts.statuses parts.data := by
  have hkept := (run.validateMinuteBatch_run.1 _ (readParts_batch hparts).1).1
  have hstatuses : parts.statuses = [run.status] :=
    Option.some.inj ((readParts_batch hparts).2.1.symm.trans run.statuses_ok)
  have hrows := run.rows_kept hparts
  have hanomalies := run.anomalies_kept hparts
  have hlength : parts.data.length = run.items.length := by
    rw [← hrows.length_eq, run.sorted_perm.length_eq]
  have htext : ∀ (a b : BoundedText 1 50), a.text = b.text → a = b := by
    intro a b hab
    cases a
    cases b
    cases hab
    rfl
  have hsymbol : ∀ row ∈ parts.data, run.status.symbol = row.symbol := by
    intro row hrow
    obtain ⟨e, -, hk⟩ := (forall₂_meets hrows).2 row hrow
    exact htext _ _ hk.symbol.symm
  have hbytes := hlimits.bytes parts hparts
  rw [hstatuses] at hbytes
  unfold payloadChecks
  rw [hstatuses]
  refine ⟨⟨Nat.le_refl 1, show 1 ≤ 50 by decide⟩, ⟨hlength ▸ run.count, ?_⟩, hkept.declared.trans hlength.symm,
    List.nodup_singleton _, hkept.symbolsSha256, run.naturalKeys hd hparts,
    fun row hrow => ⟨_, List.mem_singleton_self _, hsymbol row hrow, rfl⟩, fun row hrow => ?_,
    fun status hs _ => ?_, run.anomalyKeys hd hparts, fun a ha => ?_, fun row hrow field _ hl => ?_,
    hbytes⟩
  · rw [hlength, ← run.length_data]
    exact hlimits.items
  · obtain ⟨e, -, hk⟩ := (forall₂_meets hrows).2 row hrow
    rw [hkept.coverage.1, hkept.coverage.2, hk.tradeDate]
    exact ⟨le_refl _, le_refl _⟩
  · cases List.mem_singleton.mp hs
    obtain ⟨row, hrow⟩ := List.exists_mem_of_length_pos
      (hlength ▸ List.length_pos_iff.mpr run.filled)
    exact ⟨row, hrow, (hsymbol row hrow).symm⟩
  · obtain ⟨p, hp, htextSymbol, hstart, hfield⟩ := (forall₂_meets hanomalies).2 a ha
    obtain ⟨he, hc⟩ := run.mem_evidences.mp hp
    obtain ⟨row, hrow, hk⟩ := (forall₂_meets hrows).1 p.1 (run.mem_sorted.mpr he)
    refine ⟨row, hrow, htext _ _ (hk.symbol.trans htextSymbol.symm), hk.start.trans hstart.symm, ?_⟩
    rw [hfield]
    exact (hk.lacks_iff _).mpr ⟨p.2.2, hc⟩
  · obtain ⟨e, he, hk⟩ := (forall₂_meets hrows).2 row hrow
    obtain ⟨cell, hcell⟩ := (hk.lacks_iff field).mp hl
    obtain ⟨a, ha, htextSymbol, hstart, hfield⟩ := (forall₂_meets hanomalies).1 (e, field, cell)
      (run.mem_evidences.mpr ⟨run.mem_sorted.mp he, hcell⟩)
    exact ⟨a, ha, htext _ _ (htextSymbol.trans hk.symbol.symm), hstart.trans hk.start.symm, hfield⟩

end

end Run

/-- The requests of the adapter that are delivered. -/
theorem minute_request_deliverable_iff (lib : Platform) (limits : Limits) {input : Input} {r : Request}
    (hbuild : buildMarketMinuteRequest lib input = .ok r) (hlimits : WithinLimits lib limits r)
    (hsha : NoCollision lib input) : accepts lib limits r = true ↔ Deliverable lib input := by
  obtain ⟨run⟩ := build_ok hbuild
  refine ⟨run.deliverable hsha, fun hd => ?_⟩
  obtain ⟨parts, hparts⟩ := run.exists_parts hd
  have hidentity := (identity_eq_iff run.key).mpr hd.snapshot
  exact (run.accepts_iff limits).mpr ⟨⟨input.datasetKey, (datasetKey_printable run.key).2, hd.key.2⟩,
    rfl, hd.key.1, parts, hparts, run.checks hd hparts hlimits, congrArg lib.sha256 hidentity⟩

end

/-! ## A snapshot of one minute -/

/-- A wall clock moved by hours, where it has a date. -/
def shiftHours (hours : Int) (t : UtcTime) : UtcTime :=
  (UtcTime.ofMicros (t.toMicros + hours * 3600000000)).getD t

/-- The digests of the texts that are hashed here. -/
def digestOf (s : String) : String :=
  if s = "2330" then "0aef7080e0ce1621f216a7ba9b4bae62225a59f14210c8191cc75388df4bcf9d"
  else if s = "<empty>" then "80852ffca8497a651fbbecfbfe9d086df79e3fbfa5cde7fa331402478e545996"
  else "02d582b568aa5b702ba47e0cb86c895ec2cfd4fb9815bbc12785773bef812cbb"

/-- Taipei, on texts below 256 and numbers that are in normal form. -/
def taipei : Platform where
  toLanguage := { asciiLanguage with
    sha256 := digestOf
    taipeiDate := fun t => (shiftHours 8 t).date }
  decimal := Dec.read
  normalize d := some d
  thousandfold d := some ⟨d.negative, d.coefficient * 1000, d.exponent⟩
  utc := shiftHours (-8)
  decimal_plain := plainScript.decimal_plain
  normalize_nonneg d n h h0 := Option.some.inj h ▸ h0
  normalize_mono a b m n hm hn h := Option.some.inj hm ▸ Option.some.inj hn ▸ h
  thousandfold_nonneg d n h h0 := by
    cases h
    have hvalue : Dec.value ⟨d.negative, d.coefficient * 1000, d.exponent⟩ = d.value * 1000 := by
      unfold Dec.value
      cases d.negative <;> simp <;> ring
    rw [hvalue]
    exact mul_nonneg h0 (by decide)
  strip_infix s := by
    change (String.ofList _).toList <:+: _
    rw [String.toList_ofList]
    have hend := (List.dropWhile_suffix isBlank (l := (s.toList.dropWhile isBlank).reverse)).reverse
    rw [List.reverse_reverse] at hend
    exact hend.isInfix.trans (List.dropWhile_suffix isBlank).isInfix
  sha256_hex s := by
    change isSha256 (digestOf s) = true
    unfold digestOf
    split
    · decide
    · split <;> decide

/-- A bar of 09:00 to 09:01 at one price, without an amount. -/
def flatBar : Bar where
  ts := .int 1767344460000000000
  open_ := .primitive "585.5".toList
  high := .primitive "585.5".toList
  low := .primitive "585.5".toList
  close := .primitive "585.5".toList
  volume := .int 12
  amount := .primitive []

def flatDate : CivilDate := ⟨2026, 1, 2, by decide⟩

theorem afternoon_valid : 21600 < 86400 ∧ 0 < 1000000 := by decide

/-- One bar, after a number of requests. -/
def flatInput (usageAfterRequests : Int) : Input where
  kbars := [("ts", ⟨true, [flatBar.ts]⟩), ("Open", ⟨true, [flatBar.open_]⟩),
    ("High", ⟨true, [flatBar.high]⟩), ("Low", ⟨true, [flatBar.low]⟩),
    ("Close", ⟨true, [flatBar.close]⟩), ("Volume", ⟨true, [flatBar.volume]⟩),
    ("Amount", ⟨true, [flatBar.amount]⟩)]
  datasetKey := "tw_equity_minute"
  targetDate := flatDate
  symbols := ["2330"]
  fetchedAt := ⟨flatDate, 21600, 0, afternoon_valid⟩
  usageBeforeRequests := 1
  usageAfterRequests
  snapshotId := "2026-01-02-close"
  dailyUpdateId := "2026-01-02"
  universeId := "tw"
  sequence := 1
  sequenceCount := 1

theorem nonNegativeCell_eq {lib : Platform} {cell : Cell} {d : Dec} (hcell : cell.isPrimitive = true)
    (hread : lib.decimal cell.str = some d) (h0 : 0 ≤ d.value) : nonNegativeCell lib cell = some d := by
  unfold nonNegativeCell
  rw [if_pos hcell, hread, Option.filter_some, if_pos (decide_eq_true h0)]

theorem price_flat : price taipei flatBar.open_ = .ok ⟨false, 5855, -1⟩ := by
  have hread : Dec.read "585.5".toList = some ⟨false, 5855, -1⟩ := by decide
  exact need_ok.mpr (nonNegativeCell_eq rfl hread (Dec.value_nonneg rfl))

theorem volume_flat : volumeOf taipei flatBar.volume = .ok (some 12000) := by
  have hread : Dec.read (writeInt 12) = some ⟨false, 12, 0⟩ := by decide
  have hcell : nonNegativeCell taipei flatBar.volume = some ⟨false, 12, 0⟩ :=
    nonNegativeCell_eq rfl hread (Dec.value_nonneg rfl)
  have hvalue : Dec.value ⟨false, 12 * 1000, 0⟩ = (12000 : ℕ) := by
    norm_num [Dec.value]
  unfold volumeOf
  rw [hcell]
  change (ensure ((Dec.value ⟨false, 12 * 1000, 0⟩).den == 1) _ >>= fun _ =>
    pure (some (Dec.value ⟨false, 12 * 1000, 0⟩).num.toNat)) = _
  rw [hvalue]
  rfl

theorem buildBar_flat : ∃ out, buildBar taipei "2330" flatDate
    ⟨flatDate, 32460, 0, by decide⟩ flatBar = .ok out := by
  have hbounds : ensure (!(decide ((⟨false, 5855, -1⟩ : Dec) <
      ((⟨false, 5855, -1⟩ : Dec).max ⟨false, 5855, -1⟩).max ⟨false, 5855, -1⟩) ||
      decide (((⟨false, 5855, -1⟩ : Dec).min ⟨false, 5855, -1⟩).min ⟨false, 5855, -1⟩ <
        (⟨false, 5855, -1⟩ : Dec)))) "kbars OHLC bounds are invalid" = .ok () := by
    rw [ensure_ok]
    simp [Dec.max, Dec.min]
  have htext : decimalText taipei ⟨false, 5855, -1⟩ = .ok "585.5".toList := by
    unfold decimalText
    rw [if_neg (by norm_num [Dec.value])]
    rfl
  unfold buildBar
  refine exists_bind.mpr ⟨⟨flatDate, 32400, 0, by decide⟩, by decide +kernel, ?_⟩
  refine exists_bind.mpr ⟨_, price_flat, exists_bind.mpr ⟨_, price_flat, ?_⟩⟩
  refine exists_bind.mpr ⟨_, price_flat, exists_bind.mpr ⟨_, price_flat, ?_⟩⟩
  refine exists_bind.mpr ⟨_, hbounds, exists_bind.mpr ⟨_, htext, exists_bind.mpr ⟨_, htext, ?_⟩⟩⟩
  refine exists_bind.mpr ⟨_, htext, exists_bind.mpr ⟨_, htext, exists_bind.mpr ⟨_, volume_flat, ?_⟩⟩⟩
  exact exists_bind.mpr ⟨none, rfl, _, rfl⟩

theorem build_flat {n : Int} (hcheck : checkArguments (flatInput n) = .ok "2330") :
    ∃ r, buildMarketMinuteRequest taipei (flatInput n) = .ok r := by
  obtain ⟨⟨row, anomalies⟩, hbar⟩ := buildBar_flat
  have hadd : ∃ built, addBar taipei "2330" flatDate ⟨[], [], []⟩ flatBar =
      .ok built := by
    unfold addBar
    refine exists_bind.mpr ⟨⟨flatDate, 32460, 0, by decide⟩, by decide +kernel, ?_⟩
    refine exists_bind.mpr ⟨(), ensure_ok.mpr (by decide), exists_bind.mpr ⟨(), rfl, ?_⟩⟩
    exact exists_bind.mpr ⟨_, hbar, _, rfl⟩
  obtain ⟨built, hbuilt⟩ := hadd
  refine exists_bind.mpr ⟨_, hcheck, exists_bind.mpr ⟨built, ?_, _, rfl⟩⟩
  have hbars : (flatInput n).kbars.bars = [flatBar] := rfl
  have hdate : (flatInput n).targetDate = flatDate := rfl
  rw [hbars, hdate, List.foldlM_cons, hbuilt]
  rfl

/-- The daily requests are spent: the adapter builds a batch that the ingress refuses. -/
theorem minute_request_not_deliverable : ∃ r,
    buildMarketMinuteRequest taipei (flatInput 51) = .ok r ∧
    WithinLimits taipei defaultLimits r ∧ accepts taipei defaultLimits r = false := by
  obtain ⟨r, hr⟩ := build_flat (n := 51) (by decide +kernel)
  obtain ⟨run⟩ := build_ok hr
  have hbatch : ∀ parts, readParts taipei r ≠ some parts := fun parts hparts =>
    absurd (run.validateMinuteBatch_run.1 _ (Run.readParts_batch hparts).1).2.2.1 (by decide)
  have hitems : r.data.length = 1 := by
    have hbars := congrArg List.length run.bars
    rw [List.length_map] at hbars
    rw [run.length_data, hbars]
    rfl
  refine ⟨r, hr, ⟨by rw [hitems]; decide, fun parts hparts => absurd hparts (hbatch parts)⟩, ?_⟩
  rw [Bool.eq_false_iff]
  intro haccepted
  obtain ⟨_, _, _, parts, hparts, -⟩ := (run.accepts_iff defaultLimits).mp haccepted
  exact hbatch parts hparts

/-- With requests left, the batch is accepted by a source that takes its size. -/
theorem minute_request_deliverable_flat : ∃ r maxPayloadBytes,
    buildMarketMinuteRequest taipei (flatInput 2) = .ok r ∧
    (accepts taipei ⟨5000, maxPayloadBytes, fun v => v.dumps.length⟩ r = true ↔
      Deliverable taipei (flatInput 2)) := by
  obtain ⟨r, hr⟩ := build_flat (n := 2) (by decide +kernel)
  obtain ⟨run⟩ := build_ok hr
  have hitems : r.data.length = 1 := by
    have hbars := congrArg List.length run.bars
    rw [List.length_map] at hbars
    rw [run.length_data, hbars]
    rfl
  obtain ⟨size, hsize⟩ : ∃ size, ∀ parts, readParts taipei r = some parts →
      (dumpMinute parts.batch parts.statuses parts.data).dumps.length ≤ size := by
    cases hparts : readParts taipei r with
    | none => exact ⟨0, fun parts h => by cases h⟩
    | some parts => exact ⟨_, fun parts' h => by cases h; exact Nat.le_refl _⟩
  refine ⟨r, size, hr, minute_request_deliverable_iff taipei _ hr ⟨by rw [hitems]; exact show 1 ≤ 5000 by decide, hsize⟩ ?_⟩
  refine ⟨fun _ => by decide +kernel, fun bar hbar c hc _ => ?_⟩
  cases List.mem_singleton.mp (show bar ∈ [flatBar] from hbar)
  rcases List.mem_pair.mp (List.mem_of_mem_filter hc) with rfl | rfl
  · exact (taipei.strip_eq _ (by decide)).symm
  · exact (taipei.strip_eq _ (by decide)).symm

end FinDB.Providers.Shioaji
