import FinDB.Lib.Raise
import FinDB.Providers.MinuteIngress

/-! # From a bar to a validated row

What the loop of the adapter emits for a bar, and when the models of the ingress take it:
the texts of prices are read in the order of the prices, the texts of times are read as
they were, and a row is refused for its minute or for the size of its volume only. -/
namespace FinDB.Providers.Shioaji
open FinDB.Lib FinDB.Normalize

section
variable {lib : Platform}

/-! ## Prices -/

/-- What the text of a price is read as. -/
structure ReadsAs (lib : Platform) (d : Dec) (v : NonNegativeDecimal) : Prop where
  zero : d.value = 0 → v.dec.value = 0
  nonzero : d.value ≠ 0 → ∃ n, lib.normalize d = some n ∧ v.dec.value = n.value

theorem nonNegativeCell_nonneg {cell : Cell} {d : Dec} (h : nonNegativeCell lib cell = some d) :
    0 ≤ d.value := by
  unfold nonNegativeCell at h
  split at h
  · exact of_decide_eq_true (Option.filter_eq_some_iff.mp h).2
  · cases h

theorem readDecimal_plain {text : Text} {d : Dec} (hplain : text.all Dec.plainChar = true)
    (hread : Dec.read text = some d) (h0 : 0 ≤ d.value) :
    readDecimal lib text = some ⟨d, h0⟩ := by
  unfold readDecimal nonNegative
  rw [lib.decimal_plain text hplain, hread, Option.bind_some, dif_pos h0]

/-- The text of a price is read. -/
theorem readDecimal_decimalText {d : Dec} {text : Text} (h : decimalText lib d = .ok text)
    (h0 : 0 ≤ d.value) : ∃ v, readDecimal lib text = some v ∧ ReadsAs lib d v := by
  unfold decimalText at h
  split at h
  · rename_i hzero
    cases h
    have hread : Dec.read ['0'] = some ⟨false, 0, 0⟩ := by decide
    exact ⟨_, readDecimal_plain rfl hread (Dec.value_nonneg rfl),
      fun _ => by simp [Dec.value], fun hne => absurd hzero hne⟩
  · rename_i hne
    cases hn : lib.normalize d with
    | none =>
      rw [hn] at h
      cases h
    | some n =>
      rw [hn] at h
      cases h
      have hn0 : 0 ≤ n.fixed.value := (Dec.value_fixed n).symm ▸ lib.normalize_nonneg d n hn h0
      exact ⟨_, readDecimal_plain n.plain_fixedChars n.read_fixedChars hn0,
        fun hzero => absurd hzero hne, fun _ => ⟨n, hn, Dec.value_fixed n⟩⟩

/-- Texts are read in the order of what they write. -/
theorem ReadsAs.mono {a b : Dec} {v w : NonNegativeDecimal} (ha : ReadsAs lib a v)
    (hb : ReadsAs lib b w) (ha0 : 0 ≤ a.value) (h : a ≤ b) : v.dec ≤ w.dec := by
  have hle : a.value ≤ b.value := h
  change v.dec.value ≤ w.dec.value
  by_cases hazero : a.value = 0
  · rw [ha.zero hazero]
    exact w.nonneg
  · have hbne : b.value ≠ 0 := fun hb0 => hazero (le_antisymm (hb0 ▸ hle) ha0)
    obtain ⟨m, hm, hv⟩ := ha.nonzero hazero
    obtain ⟨n, hn, hw⟩ := hb.nonzero hbne
    rw [hv, hw]
    exact lib.normalize_mono a b m n hm hn h

/-! ## Times -/

theorem readTime_utcText (t : UtcTime) : readTime (utcText t) = some t := by
  unfold readTime utcText
  rw [parseDatetime_time]

theorem utcText_injective {t u : UtcTime} (h : utcText t = utcText u) : t = u := by
  have hread := readTime_utcText t
  rw [h, readTime_utcText] at hread
  exact (Option.some.inj hread).symm

/-! ## Texts that are kept -/

/-- Printable ASCII without blanks. -/
def Printable (s : String) : Prop := (s.toList.all fun c => decide ('!' ≤ c ∧ c ≤ '~')) = true

theorem isAlphanum_iff {c : Char} : c.isAlphanum = true ↔
    (65 ≤ c.toNat ∧ c.toNat ≤ 90 ∨ 97 ≤ c.toNat ∧ c.toNat ≤ 122) ∨
      48 ≤ c.toNat ∧ c.toNat ≤ 57 := by
  have hclass : c.isAlphanum = ((decide (65 ≤ c.val ∧ c.val ≤ 90) ||
      decide (97 ≤ c.val) && decide (c.val ≤ 122)) ||
        decide (48 ≤ c.val) && decide (c.val ≤ 57)) := rfl
  rw [hclass]
  simp only [Bool.or_eq_true, Bool.and_eq_true, decide_eq_true_eq]
  exact Iff.rfl

theorem printable_alphanum {c : Char} (h : c.isAlphanum = true) : '!' ≤ c ∧ c ≤ '~' := by
  change 33 ≤ c.toNat ∧ c.toNat ≤ 126
  have hclass := isAlphanum_iff.mp h
  omega

theorem alphanumeric_printable {dropped : List Char} {s : String}
    (h : alphanumeric dropped s = true)
    (hdropped : dropped.all (fun c => decide ('!' ≤ c ∧ c ≤ '~')) = true) :
    Printable s ∧ 1 ≤ s.length := by
  unfold alphanumeric at h
  simp only [Bool.and_eq_true, Bool.not_eq_true', List.isEmpty_eq_false_iff] at h
  refine ⟨List.all_eq_true.mpr fun c hc => decide_eq_true ?_, ?_⟩
  · cases hcontains : dropped.contains c with
    | true =>
      exact of_decide_eq_true (List.all_eq_true.mp hdropped c (List.contains_iff_mem.mp hcontains))
    | false =>
      refine printable_alphanum (List.all_eq_true.mp h.2 c (List.mem_filter.mpr ⟨hc, ?_⟩))
      rw [hcontains]
      rfl
  · rw [← String.length_toList]
    exact List.length_pos_iff.mpr fun hnil => h.1 (by rw [hnil]; rfl)

variable (lib) in
theorem strippedText_printable {s : String} (lo hi : Nat) (h : Printable s)
    (hlength : lo ≤ s.length ∧ s.length ≤ hi) :
    strippedText lib lo hi s = some ⟨s, hlength⟩ := by
  have hstrip := lib.strip_eq s h
  unfold strippedText
  simp only [hstrip]
  rw [dif_pos hlength]

/-- A text as it is kept. -/
theorem strippedText_eq_some {lo hi : Nat} {s : String} {b : BoundedText lo hi} :
    strippedText lib lo hi s = some b ↔ b.text = lib.strip s := by
  unfold strippedText
  constructor
  · intro h
    split at h
    · exact (congrArg BoundedText.text (Option.some.inj h)).symm
    · cases h
  · intro h
    obtain ⟨text, hbounds⟩ := b
    subst h
    rw [dif_pos hbounds]

theorem isSha256_printable {s : String} (h : isSha256 s = true) : Printable s ∧ s.length = 64 := by
  unfold isSha256 at h
  rw [Bool.and_eq_true, beq_iff_eq] at h
  refine ⟨List.all_eq_true.mpr fun c hc => decide_eq_true ?_, h.1⟩
  have hchar := List.all_eq_true.mp h.2 c hc
  refine printable_alphanum ?_
  simp only [Bool.or_eq_true, decide_eq_true_eq] at hchar
  rcases hchar with hdigit | ⟨hlo, hhi⟩
  · simp only [Char.isAlphanum, hdigit, Bool.or_true]
  · have hhi' : c.toNat ≤ 122 := le_trans (b := 102) hhi (by decide)
    exact isAlphanum_iff.mpr (.inl (.inr ⟨hlo, hhi'⟩))

/-! ## Emissions -/

variable {symbol : String} {target : CivilDate}

/-- One turn of the loop: a bar, and what was emitted for it. -/
structure Emission (lib : Platform) (symbol : String) (target : CivilDate) where
  bar : Bar
  end_ : UtcTime
  start : UtcTime
  row : Row
  open_ : Dec
  high : Dec
  low : Dec
  close : Dec
  barEnd : barEnd bar.ts = .ok end_
  barStart : barStart end_ = .ok start
  nonneg : (0 ≤ open_.value ∧ 0 ≤ high.value) ∧ 0 ≤ low.value ∧ 0 ≤ close.value
  highest : (open_ ≤ high ∧ low ≤ high) ∧ close ≤ high
  lowest : (low ≤ open_ ∧ low ≤ high) ∧ low ≤ close
  texts : (decimalText lib open_ = .ok row.open_ ∧ decimalText lib high = .ok row.high) ∧
    decimalText lib low = .ok row.low ∧ decimalText lib close = .ok row.close
  volume : volumeOf lib bar.volume = .ok row.volume
  turnover : turnoverOf lib bar.amount = .ok row.turnover
  constants : (row.symbol = symbol ∧ row.sourceSymbol = symbol) ∧
    row.tradeDate = target.isoformat ∧ row.marketTimezone = "Asia/Taipei" ∧
    row.priceAdjustment = "none"
  times : row.barStartTime = utcText (lib.utc start) ∧ row.barEndTime = utcText (lib.utc end_) ∧
    row.signalTime = row.barEndTime

namespace Emission

/-- The anomalies of the bar. -/
def anomalies (e : Emission lib symbol target) : List Anomaly :=
  anomalyOf lib symbol e.row.barStartTime .volume e.bar.volume ++
    anomalyOf lib symbol e.row.barStartTime .turnover e.bar.amount

end Emission

theorem price_ok {cell : Cell} {d : Dec} (h : price lib cell = .ok d) : 0 ≤ d.value :=
  nonNegativeCell_nonneg (need_ok.mp h)

theorem buildBar_ok {end_ : UtcTime} {bar : Bar} {row : Row} {anomalies : List Anomaly}
    (hend : barEnd bar.ts = .ok end_)
    (h : buildBar lib symbol target end_ bar = .ok (row, anomalies)) :
    ∃ e : Emission lib symbol target, e.bar = bar ∧ e.end_ = end_ ∧ e.row = row ∧
      e.anomalies = anomalies := by
  obtain ⟨start, hstart, h⟩ := ok_bind h
  obtain ⟨open_, hopen, h⟩ := ok_bind h
  obtain ⟨high, hhigh, h⟩ := ok_bind h
  obtain ⟨low, hlow, h⟩ := ok_bind h
  obtain ⟨close, hclose, h⟩ := ok_bind h
  obtain ⟨_, hbounds, h⟩ := ok_bind h
  obtain ⟨openText, hopenText, h⟩ := ok_bind h
  obtain ⟨highText, hhighText, h⟩ := ok_bind h
  obtain ⟨lowText, hlowText, h⟩ := ok_bind h
  obtain ⟨closeText, hcloseText, h⟩ := ok_bind h
  obtain ⟨volume, hvolume, h⟩ := ok_bind h
  obtain ⟨turnover, hturnover, h⟩ := ok_bind h
  rw [ensure_ok, Bool.not_eq_true', Bool.or_eq_false_iff, decide_eq_false_iff_not,
    decide_eq_false_iff_not, Dec.not_lt, Dec.not_lt, Dec.max_le_iff, Dec.max_le_iff,
    Dec.le_min_iff, Dec.le_min_iff] at hbounds
  have hpair := ok_pure h
  injection hpair with hrow hanomalies
  subst hrow hanomalies
  exact ⟨{
    bar
    end_
    start
    row := _
    open_
    high
    low
    close
    barEnd := hend
    barStart := hstart
    nonneg := ⟨⟨price_ok hopen, price_ok hhigh⟩, price_ok hlow, price_ok hclose⟩
    highest := hbounds.1
    lowest := hbounds.2
    texts := ⟨⟨hopenText, hhighText⟩, hlowText, hcloseText⟩
    volume := hvolume
    turnover := hturnover
    constants := ⟨⟨rfl, rfl⟩, rfl, rfl, rfl⟩
    times := ⟨rfl, rfl, rfl⟩ }, rfl, rfl, rfl, rfl⟩

/-! ## The loop -/

theorem addBar_ok {built built' : Built} {bar : Bar}
    (h : addBar lib symbol target built bar = .ok built') :
    ∃ e : Emission lib symbol target, e.bar = bar ∧ e.end_.date = target ∧
      e.row.barEndTime ∉ built.seenEnds ∧ built' = ⟨built.rows ++ [e.row],
        built.anomalies ++ e.anomalies, e.row.barEndTime :: built.seenEnds⟩ := by
  obtain ⟨end_, hend, h⟩ := ok_bind h
  obtain ⟨_, hdate, h⟩ := ok_bind h
  obtain ⟨_, hseen, h⟩ := ok_bind h
  obtain ⟨⟨row, anomalies⟩, hbuild, h⟩ := ok_bind h
  obtain ⟨e, hbar, hend', hrow, hanomalies⟩ := buildBar_ok hend hbuild
  have hbuilt := ok_pure h
  have htext : e.row.barEndTime = utcText (lib.utc end_) := hend' ▸ e.times.2.1
  rw [ensure_ok, beq_iff_eq] at hdate
  rw [ensure_ok, Bool.not_eq_true', List.contains_eq_mem, decide_eq_false_iff_not] at hseen
  refine ⟨e, hbar, hend'.symm ▸ hdate, htext.symm ▸ hseen, ?_⟩
  rw [hbuilt, hrow, hanomalies, ← hrow, htext]

/-- The whole loop: each bar was emitted once, and no end repeats. -/
theorem foldlM_addBar_ok {bars : List Bar} {built built' : Built}
    (h : bars.foldlM (addBar lib symbol target) built = .ok built') :
    ∃ items : List (Emission lib symbol target), items.map Emission.bar = bars ∧
      (∀ e ∈ items, e.end_.date = target) ∧
      built'.rows = built.rows ++ items.map Emission.row ∧
      built'.anomalies = built.anomalies ++ items.flatMap Emission.anomalies ∧
      (items.map fun e => e.row.barEndTime).Nodup ∧
      ∀ e ∈ items, e.row.barEndTime ∉ built.seenEnds := by
  induction bars generalizing built with
  | nil =>
    cases ok_pure h
    exact ⟨[], rfl, by simp, by simp, by simp, by simp, by simp⟩
  | cons bar bars ih =>
    rw [List.foldlM_cons] at h
    obtain ⟨next, hnext, h⟩ := ok_bind h
    obtain ⟨e, hbar, hdate, hfresh, rfl⟩ := addBar_ok hnext
    obtain ⟨items, hbars, hdates, hrows, hanomalies, hnodup, hseen⟩ := ih h
    refine ⟨e :: items, by rw [List.map_cons, hbar, hbars], ?_, ?_, ?_, ?_, ?_⟩
    · exact List.forall_mem_cons.mpr ⟨hdate, hdates⟩
    · rw [hrows, List.map_cons, List.append_assoc]
      rfl
    · rw [hanomalies, List.flatMap_cons, List.append_assoc]
    · refine List.nodup_cons.mpr ⟨fun hmem => ?_, hnodup⟩
      obtain ⟨e', he', heq⟩ := List.mem_map.mp hmem
      exact hseen e' he' (List.mem_cons.mpr (.inl heq))
    · exact List.forall_mem_cons.mpr
        ⟨hfresh, fun e' he' hmem => hseen e' he' (List.mem_cons_of_mem _ hmem)⟩

/-! ## A row at the ingress -/

namespace Emission

/-- The start is a minute before the end in UTC, and of the target date. -/
def Aligned (e : Emission lib symbol target) : Prop :=
  (lib.utc e.end_).toMicros = (lib.utc e.start).toMicros + oneMinute ∧
    lib.taipeiDate (lib.utc e.start) = target

/-- The volume is an integer that JSON holds. -/
def FitsJson (e : Emission lib symbol target) : Prop := e.row.volume.all jsonInteger = true

end Emission

/-- What the ingress keeps of a row. -/
structure Keeps (e : Emission lib symbol target) (row : MarketMinuteRow lib.toLanguage) : Prop where
  symbol : row.symbol.text = symbol
  start : row.barStartTime = lib.utc e.start
  tradeDate : row.tradeDate = target
  lacks : ∀ field, row.lacks field = match field with
    | .volume => e.row.volume.isNone
    | .turnover => e.row.turnover.isNone

theorem turnoverOf_ok {cell : Cell} {turnover : Option Text} (h : turnoverOf lib cell = .ok turnover) :
    ∃ v, readNullable (readDecimal lib) turnover = some v ∧ v.isNone = turnover.isNone ∧
      turnover.isNone = (nonNegativeCell lib cell).isNone := by
  unfold turnoverOf at h
  cases hcell : nonNegativeCell lib cell with
  | none =>
    rw [hcell] at h
    cases h
    exact ⟨none, rfl, rfl, rfl⟩
  | some amount =>
    rw [hcell] at h
    obtain ⟨text, htext, rfl⟩ : ∃ text, decimalText lib amount = .ok text ∧ some text = turnover := by
      simp only at h
      cases htext : decimalText lib amount with
      | error e =>
        rw [htext] at h
        cases h
      | ok text =>
        rw [htext] at h
        cases h
        exact ⟨text, rfl, rfl⟩
    obtain ⟨v, hv, -⟩ := readDecimal_decimalText htext (nonNegativeCell_nonneg hcell)
    exact ⟨some v, by simp only [readNullable, hv, Option.map_some], rfl, rfl⟩

theorem volumeOf_ok {cell : Cell} {volume : Option Nat} (h : volumeOf lib cell = .ok volume) :
    volume.isNone = (nonNegativeCell lib cell).isNone := by
  unfold volumeOf at h
  cases hcell : nonNegativeCell lib cell with
  | none =>
    rw [hcell] at h
    cases h
    rfl
  | some lots =>
    rw [hcell] at h
    obtain ⟨shares, -, h⟩ := ok_bind h
    obtain ⟨_, -, h⟩ := ok_bind h
    cases ok_pure h
    rfl

/-- The bounds of the prices are kept by their texts. -/
theorem ohlcBounds_texts {e : Emission lib symbol target} {open_ high low close : NonNegativeDecimal}
    (hopen : ReadsAs lib e.open_ open_) (hhigh : ReadsAs lib e.high high)
    (hlow : ReadsAs lib e.low low) (hclose : ReadsAs lib e.close close) :
    validateOhlcBounds (some open_) (some high) (some low) (some close) = true := by
  obtain ⟨⟨hopen0, hhigh0⟩, hlow0, hclose0⟩ := e.nonneg
  obtain ⟨⟨hoh, hlh⟩, hch⟩ := e.highest
  obtain ⟨⟨hlo, -⟩, hlc⟩ := e.lowest
  unfold validateOhlcBounds
  rw [Bool.and_eq_true, Bool.not_eq_true', Bool.not_eq_true', belowAny_eq_false, aboveAny_eq_false]
  simp only [Option.map_some, Option.mem_some_iff, List.mem_cons, List.not_mem_nil, or_false,
    forall_eq', forall_eq_or_imp, forall_eq]
  exact ⟨⟨hopen.mono hhigh hopen0 hoh, hlow.mono hhigh hlow0 hlh, hclose.mono hhigh hclose0 hch⟩,
    hlow.mono hopen hlow0 hlo, hlow.mono hhigh hlow0 hlh, hlow.mono hclose hlow0 hlc⟩

/-- The checks of a row that an emission can fail. -/
theorem validateMinuteRow_emitted (e : Emission lib symbol target) (hsymbol : Printable symbol)
    (hlength : 1 ≤ symbol.length ∧ symbol.length ≤ 50) :
    (∀ row, validateMinuteRow lib e.row = some row → e.Aligned ∧ e.FitsJson ∧ Keeps e row) ∧
      (e.Aligned → e.FitsJson → ∃ row, validateMinuteRow lib e.row = some row) := by
  obtain ⟨⟨hsym, hsource⟩, hdate, hzone, hadjust⟩ := e.constants
  obtain ⟨⟨hopen0, hhigh0⟩, hlow0, hclose0⟩ := e.nonneg
  obtain ⟨open_, hopen, hopenAs⟩ := readDecimal_decimalText e.texts.1.1 hopen0
  obtain ⟨high, hhigh, hhighAs⟩ := readDecimal_decimalText e.texts.1.2 hhigh0
  obtain ⟨low, hlow, hlowAs⟩ := readDecimal_decimalText e.texts.2.1 hlow0
  obtain ⟨close, hclose, hcloseAs⟩ := readDecimal_decimalText e.texts.2.2 hclose0
  obtain ⟨turnover, hturnover, hnone, -⟩ := turnoverOf_ok e.turnover
  have hstripped := strippedText_printable lib 1 50 hsymbol hlength
  have hstripped' := strippedText_printable lib 1 100 hsymbol
    ⟨hlength.1, hlength.2.trans (by decide)⟩
  have hstart : readTime e.row.barStartTime = some (lib.utc e.start) := by
    rw [e.times.1, readTime_utcText]
  have hend : readTime e.row.barEndTime = some (lib.utc e.end_) := by
    rw [e.times.2.1, readTime_utcText]
  have hsignal : readTime e.row.signalTime = some (lib.utc e.end_) := by rw [e.times.2.2, hend]
  have hbounds := ohlcBounds_texts hopenAs hhighAs hlowAs hcloseAs
  unfold validateMinuteRow
  simp only [hsym, hsource, hstripped, hstripped', hdate, CivilDate.fromisoformat_isoformat, hstart,
    hend, hsignal, hopen, hhigh, hlow, hclose, hturnover, hzone, hadjust, hbounds,
    Option.bind_eq_bind, Option.bind_some]
  constructor
  · intro row hrow
    split at hrow
    · rename_i h
      cases hrow
      exact ⟨⟨h.2.2.1.1, h.2.2.2⟩, h.1.2.2, rfl, rfl, rfl, fun field => by cases field <;> simp [MarketMinuteRow.lacks, hnone]⟩
    · cases hrow
  · rintro ⟨hminute, hlocal⟩ hfits
    exact ⟨_, dif_pos ⟨⟨trivial, trivial, hfits⟩, trivial, ⟨hminute, trivial⟩, hlocal⟩⟩

/-! ## Anomalies at the ingress -/

/-- The evidence for a cell that is no number. -/
def evidence (cell : Cell) : String := String.ofList (anomalyValue cell)

/-- The fields of a bar that are no numbers. -/
def Bar.malformed (lib : Platform) (bar : Bar) : List (AnomalyField × Cell) :=
  [(.volume, bar.volume), (.turnover, bar.amount)].filter fun c => (nonNegativeCell lib c.2).isNone

/-- The anomaly of a field. -/
def anomalyFor (lib : Platform) (symbol start : String) (c : AnomalyField × Cell) : Anomaly :=
  ⟨symbol, start, c.1, evidence c.2, lib.sha256 (evidence c.2), "invalid_provider_numeric_value"⟩

theorem Emission.anomalies_eq (e : Emission lib symbol target) : e.anomalies =
    (e.bar.malformed lib).map (anomalyFor lib symbol e.row.barStartTime) := by
  unfold Emission.anomalies anomalyOf Bar.malformed
  cases hvolume : nonNegativeCell lib e.bar.volume <;>
    cases hamount : nonNegativeCell lib e.bar.amount <;>
    simp [hvolume, hamount, anomalyFor, evidence]

theorem length_evidence (cell : Cell) :
    1 ≤ (evidence cell).length ∧ (evidence cell).length ≤ 500 := by
  unfold evidence anomalyValue
  rw [String.length_ofList]
  split
  · split
    · decide
    · rename_i hne
      have hpos := List.length_pos_iff.mpr hne
      rw [List.length_take]
      omega
  · decide

/-- The ingress takes the evidence that has nothing to strip, and computes its digest again. -/
theorem validateAnomaly_emitted (e : Emission lib symbol target) (hsymbol : Printable symbol)
    (hlength : 1 ≤ symbol.length ∧ symbol.length ≤ 50) (c : AnomalyField × Cell) :
    (∀ a, validateAnomaly lib (anomalyFor lib symbol e.row.barStartTime c) = some a →
      lib.sha256 (evidence c.2) = lib.sha256 (lib.strip (evidence c.2)) ∧
        a.symbol.text = symbol ∧ a.barStartTime = lib.utc e.start ∧ a.field = c.1) ∧
    (lib.strip (evidence c.2) = evidence c.2 →
      ∃ a, validateAnomaly lib (anomalyFor lib symbol e.row.barStartTime c) = some a) := by
  have hstripped := strippedText_printable lib 1 50 hsymbol hlength
  have hstart : readTime e.row.barStartTime = some (lib.utc e.start) := by
    rw [e.times.1, readTime_utcText]
  have hreason : strippedText lib 1 500 "invalid_provider_numeric_value" =
      some ⟨"invalid_provider_numeric_value", by decide⟩ :=
    strippedText_printable lib 1 500 (by unfold Printable; decide) (by decide)
  have hhex := lib.sha256_hex (evidence c.2)
  have hdigest : lib.strip (lib.sha256 (evidence c.2)) = lib.sha256 (evidence c.2) :=
    lib.strip_eq _ (isSha256_printable hhex).1
  unfold validateAnomaly anomalyFor
  simp only [hstripped, hstart, hreason, hdigest, hhex, Option.bind_eq_bind, Option.bind_some,
    true_and]
  constructor
  · intro a ha
    obtain ⟨raw, hraw, ha⟩ := Option.bind_eq_some_iff.mp ha
    split at ha
    · rename_i hsame
      cases ha
      rw [strippedText_eq_some.mp hraw] at hsame
      exact ⟨hsame, rfl, rfl, rfl⟩
    · cases ha
  · intro hkept
    have hraw : strippedText lib 1 500 (evidence c.2) = some ⟨evidence c.2, length_evidence c.2⟩ :=
      strippedText_eq_some.mpr hkept.symm
    rw [hraw, Option.bind_some, dif_pos rfl]
    exact ⟨_, rfl⟩

/-- A row lacks a field just when the bar has evidence for it. -/
theorem Keeps.lacks_iff {e : Emission lib symbol target} {row : MarketMinuteRow lib.toLanguage}
    (h : Keeps e row) (field : AnomalyField) :
    row.lacks field = true ↔ ∃ cell, (field, cell) ∈ e.bar.malformed lib := by
  have hvolume := volumeOf_ok e.volume
  obtain ⟨_, -, -, hturnover⟩ := turnoverOf_ok e.turnover
  rw [h.lacks]
  unfold Bar.malformed
  cases field with
  | volume => simp [hvolume]
  | turnover => simp [hturnover]

end

end FinDB.Providers.Shioaji
