import FinDB.Calendar.Revisions

/-! # What a calendar operation does

Each call read backwards: the checks it passed and the rows it wrote. -/
namespace FinDB.Calendar
open FinDB.Lib

variable {cfg : Config} {s t : State}

/-! ## Whole years -/

/-- Each date of the year once, with sessions only where it is open. -/
structure WholeYear (year : Int) (rows : List DayInput) : Prop where
  dates : (rows.map (·.tradeDate)).Perm (yearDays year)
  wellFormed : ∀ d ∈ rows, d.wellFormed

theorem normalized_wellFormed (row : DayInput) : (row.normalized cfg).wellFormed := by
  intro hstatus
  have hstatus : row.status ≠ .opened := hstatus
  simp [DayInput.normalized, hstatus]

theorem normalizeRows_ok {year : Int} {seen : List Date} {rows out : List DayInput}
    (h : normalizeRows cfg year seen rows = .ok out) :
    (∀ d ∈ out, InYear year d.tradeDate ∧ d.tradeDate ∉ seen ∧ d.wellFormed) ∧
      (out.map (·.tradeDate)).Nodup := by
  induction rows generalizing seen out with
  | nil =>
    cases h
    exact ⟨fun d hd => absurd hd List.not_mem_nil, List.nodup_nil⟩
  | cons row rows ih =>
    unfold normalizeRows at h
    obtain ⟨_, hyear, h⟩ := ok_bind h
    obtain ⟨_, hseen, h⟩ := ok_bind h
    obtain ⟨rest, hrest, h⟩ := ok_bind h
    cases ok_pure h
    have hyear : InYear year row.tradeDate := by simpa using ensure_ok.mp hyear
    have hseen : row.tradeDate ∉ seen := by simpa using ensure_ok.mp hseen
    obtain ⟨hall, hnodup⟩ := ih hrest
    refine ⟨fun d hd => ?_, ?_⟩
    · rcases List.mem_cons.mp hd with rfl | hd
      · exact ⟨hyear, hseen, normalized_wellFormed row⟩
      · obtain ⟨hd, hnot, hwf⟩ := hall d hd
        exact ⟨hd, fun hmem => hnot (List.mem_cons_of_mem _ hmem), hwf⟩
    · rw [List.map_cons, List.nodup_cons]
      refine ⟨fun hmem => ?_, hnodup⟩
      obtain ⟨d, hd, he⟩ := List.mem_map.mp hmem
      refine (hall d hd).2.1 ?_
      rw [he]
      exact List.mem_cons_self

/-- Whatever the coverage mode, the rows that pass are a whole year. -/
theorem applyRows_wholeYear {year : Int} {market : Market} {rows out : List DayInput}
    {mode : CoverageMode} (h : applyRows cfg year market rows mode = .ok out) :
    WholeYear year out := by
  unfold applyRows at h
  obtain ⟨_, _, h⟩ := ok_bind h
  obtain ⟨normalized, hnorm, h⟩ := ok_bind h
  obtain ⟨hall, hnodup⟩ := normalizeRows_ok hnorm
  cases mode with
  | fullYear =>
    obtain ⟨_, hlen, h⟩ := ok_bind h
    cases ok_pure h
    have hperm := List.perm_insertionSort (fun x y : DayInput => x.tradeDate ≤ y.tradeDate) normalized
    refine ⟨(hperm.map _).trans (perm_yearDays hnodup (fun date hdate => ?_) ?_), fun d hd => ?_⟩
    · obtain ⟨d, hd, rfl⟩ := List.mem_map.mp hdate
      exact (hall d hd).1
    · rw [List.length_map]
      simpa using ensure_ok.mp hlen
    · exact (hall d (hperm.mem_iff.mp hd)).2.2
  | exceptions =>
    cases ok_pure h
    have hdate : ∀ d ∈ allDays year market,
        ((normalized.find? (·.tradeDate == d.tradeDate)).getD d).tradeDate = d.tradeDate := by
      intro d _
      cases hf : normalized.find? (·.tradeDate == d.tradeDate) with
      | none => rfl
      | some row => simpa using List.find?_some hf
    refine ⟨?_, fun d hd => ?_⟩
    · have hmap := List.map_congr_left hdate
      rw [allDays_dates] at hmap
      rw [List.map_map]
      exact List.Perm.of_eq hmap
    · obtain ⟨x, hx, rfl⟩ := List.mem_map.mp hd
      cases hf : normalized.find? (·.tradeDate == x.tradeDate) with
      | none => exact allDays_wellFormed hx
      | some row => exact (hall row (List.mem_of_find?_eq_some hf)).2.2

theorem dayTable_ok {days : List RevisionDay} {table : Table RevisionDay.tradeDate}
    (h : dayTable days = .ok table) : table.rows = days := by
  unfold dayTable at h
  split at h
  · cases h
    rfl
  · cases h

theorem addRevision_ok {r : Revision} (h : addRevision r s = .ok t) :
    ∃ revisions, s.revisions.insert? r = some revisions ∧ t = { s with revisions } := by
  unfold addRevision at h
  obtain ⟨revisions, hr, h⟩ := ok_bind h
  exact ⟨revisions, need_ok.mp hr, ok_pure h⟩

/-! ## The operations -/

/-- The markets are those there are and at most one with the fixed settings. -/
def AddsFixed (s : State) (markets : Table Market.market) : Prop :=
  ∀ m ∈ markets, m ∈ s.markets ∨
    ∃ fixed, fixedMarket m.market = some fixed ∧ m.timezone = fixed.timezone

theorem ensureMarketForEdit_ok {market : String} {m : Market}
    (h : ensureMarketForEdit market s = .ok (t, m)) :
    ∃ markets, t = { s with markets } ∧ AddsFixed s markets := by
  unfold ensureMarketForEdit at h
  split at h
  · cases h
    exact ⟨s.markets, rfl, fun m hm => Or.inl hm⟩
  · obtain ⟨fixed, hfixed, h⟩ := ok_bind h
    obtain ⟨markets, hins, h⟩ := ok_bind h
    cases ok_pure h
    refine ⟨markets, rfl, fun m hm => ?_⟩
    rcases (Table.mem_insert? (need_ok.mp hins)).mp hm with hm | rfl
    · exact Or.inl hm
    · exact Or.inr ⟨fixed, need_ok.mp hfixed, rfl⟩

theorem preview_ok {now : Instant} {batchId : Uuid} {r : PreviewRequest}
    (h : preview cfg now batchId r s = .ok t) :
    ∃ markets batches b, AddsFixed s markets ∧ s.batches.insert? b = some batches ∧
      t = { s with markets, batches } ∧ b.status = .previewed ∧
      WholeYear b.year b.candidateRows := by
  unfold preview at h
  obtain ⟨⟨s', market⟩, hmarket, h⟩ := ok_bind h
  obtain ⟨markets, rfl, hfixed⟩ := ensureMarketForEdit_ok hmarket
  obtain ⟨_, _, h⟩ := ok_bind h
  obtain ⟨rows, hrows, h⟩ := ok_bind h
  unfold createPreview at h
  obtain ⟨batches, hb, h⟩ := ok_bind h
  exact ⟨markets, batches, _, hfixed, need_ok.mp hb, ok_pure h, rfl, applyRows_wholeYear hrows⟩

/-- What `apply_preview` does: answer a replay, or add the draft of the preview. -/
theorem applyPreview_ok {now : Instant} {revisionId batchId : Uuid} {expected : Nat} {r : Revision}
    (h : applyPreview now revisionId batchId expected s = .ok (t, r)) :
    ∃ b ∈ s.batches, b.batchId = batchId ∧ expected = b.baseRevision ∧
      ((b.status = .applied ∧ s.createdBy b = some r ∧ t = s) ∨
      (b.status = .previewed ∧ s.currentRevision b.market b.year = expected ∧
        ∃ market days revisions, s.markets.find? b.market = some market ∧
          days.rows = b.candidateRows.map (·.toDay b.inputFormat) ∧
          r = b.draft revisionId market expected days ∧
          s.revisions.insert? r = some revisions ∧
          t = { s with
            revisions, batches := s.batches.modify batchId ({ · with status := .applied }) })) := by
  unfold applyPreview at h
  obtain ⟨b, hb, h⟩ := ok_bind h
  obtain ⟨hmem, hid⟩ := Table.find?_eq_some.mp (need_ok.mp hb)
  refine ⟨b, hmem, hid, ?_⟩
  split at h
  · rename_i happlied
    obtain ⟨_, hexpected, h⟩ := ok_bind h
    obtain ⟨existing, hcreated, h⟩ := ok_bind h
    cases ok_pure h
    exact ⟨by simpa using ensure_ok.mp hexpected,
      Or.inl ⟨by simpa using happlied, need_ok.mp hcreated, rfl⟩⟩
  · rename_i hpreviewed
    obtain ⟨_, _, h⟩ := ok_bind h
    obtain ⟨market, hmarket, h⟩ := ok_bind h
    obtain ⟨_, hexpected, h⟩ := ok_bind h
    obtain ⟨days, hdays, h⟩ := ok_bind h
    obtain ⟨s', hadd, h⟩ := ok_bind h
    cases ok_pure h
    obtain ⟨revisions, hins, rfl⟩ := addRevision_ok hadd
    have hexpected := ensure_ok.mp hexpected
    simp only [Bool.and_eq_true, beq_iff_eq] at hexpected
    rw [hexpected.2] at hins ⊢
    refine ⟨hexpected.1, Or.inr ⟨?_, rfl, market, days, revisions, need_ok.mp hmarket,
      dayTable_ok hdays, rfl, hins, rfl⟩⟩
    cases hs : b.status with
    | previewed => rfl
    | applied => simp [hs] at hpreviewed

/-- The days `clone_with_day_change` starts from, and the number after them. -/
theorem cloneSource_ok {market : Market} {year : Int} {expected : Nat}
    {source : List RevisionDay} {next : Nat}
    (h : cloneSource market year expected s = .ok (source, next)) :
    s.currentRevision market.market year = expected ∧ next = expected + 1 ∧
      ((s.latestRevision market.market year = none ∧
          source = (allDays year market).map (·.toDay "market_default")) ∨
        ∃ p, s.latestRevision market.market year = some p ∧
          source = p.days.rows.map fun d => { d with isOpen := d.dayStatus == .opened }) := by
  unfold cloneSource at h
  unfold State.currentRevision
  cases hl : s.latestRevision market.market year with
  | none =>
    simp only [hl] at h
    obtain ⟨_, hexpected, h⟩ := ok_bind h
    cases ok_pure h
    have hexpected : expected = 0 := by simpa using ensure_ok.mp hexpected
    exact ⟨hexpected.symm, by omega, Or.inl ⟨rfl, rfl⟩⟩
  | some p =>
    simp only [hl] at h
    obtain ⟨_, hexpected, h⟩ := ok_bind h
    obtain ⟨_, _, h⟩ := ok_bind h
    cases ok_pure h
    have hexpected : p.revision = expected := by simpa using ensure_ok.mp hexpected
    exact ⟨hexpected, by omega, Or.inr ⟨p, rfl, rfl⟩⟩

theorem editDay_ok {revisionId : Uuid} {market : String} {date : Date} {expected : Nat}
    {replacement : DayInput} {r : Revision}
    (h : editDay revisionId market date expected replacement s = .ok (t, r)) :
    ∃ markets m source revisions, AddsFixed s markets ∧ markets.find? market = some m ∧
      cloneSource m (yearOf date) expected { s with markets } = .ok (source, expected + 1) ∧
      r.days.rows = source.map (fun d =>
        if d.tradeDate = date then replacement.manual d.tradeDate else d) ∧
      r.market = market ∧ r.year = yearOf date ∧ r.revision = expected + 1 ∧ r.status = .draft ∧
      r.expectedDays = daysIn (yearOf date) ∧ r.actualDays = source.length ∧
      r.timezone = m.timezone ∧ s.revisions.insert? r = some revisions ∧
      t = { s with markets, revisions } := by
  unfold editDay at h
  obtain ⟨⟨s', m₀⟩, hmarket, h⟩ := ok_bind h
  obtain ⟨markets, rfl, hfixed⟩ := ensureMarketForEdit_ok hmarket
  unfold cloneWithDayChange at h
  simp only at h
  obtain ⟨m, hm, h⟩ := ok_bind h
  obtain ⟨⟨source, next⟩, hsource, h⟩ := ok_bind h
  obtain ⟨_, _, h⟩ := ok_bind h
  obtain ⟨days, hdays, h⟩ := ok_bind h
  obtain ⟨s'', hadd, h⟩ := ok_bind h
  cases ok_pure h
  obtain ⟨revisions, hins, rfl⟩ := addRevision_ok hadd
  have hm := need_ok.mp hm
  obtain ⟨_, hnext, _⟩ := cloneSource_ok hsource
  have hname : m.market = market := (Table.find?_eq_some.mp hm).2
  subst hnext
  exact ⟨markets, m, source, revisions, hfixed, hm, hsource, dayTable_ok hdays, hname, rfl, rfl,
    rfl, rfl, rfl, rfl, hins, rfl⟩

theorem publishRevision_ok {now : Instant} {market : String} {year : Int} {expected : Nat}
    {publishedBy : Option String}
    (h : publishRevision now market year expected publishedBy s = .ok t) :
    ∃ r, s.latestRevision market year = some r ∧ r.revision = expected ∧
      ((r.status = .published ∧ t = s) ∨
        (r.status = .draft ∧
          t = (s.supersede market year).markPublished r.revisionId now publishedBy)) := by
  unfold publishRevision at h
  obtain ⟨r, hr, h⟩ := ok_bind h
  obtain ⟨hlatest, hexpected⟩ := Option.filter_eq_some_iff.mp (need_ok.mp hr)
  refine ⟨r, hlatest, by simpa using hexpected, ?_⟩
  split at h
  · rename_i hpub
    exact Or.inl ⟨by simpa using hpub, ok_pure h⟩
  · obtain ⟨_, hdraft, h⟩ := ok_bind h
    obtain ⟨_, _, h⟩ := ok_bind h
    exact Or.inr ⟨by simpa using ensure_ok.mp hdraft, ok_pure h⟩

theorem rollbackRevision_ok {now : Instant} {revisionId : Uuid} {market : String} {year : Int}
    {targetRevision expected : Nat} {publishedBy : Option String} {r : Revision}
    (h : rollbackRevision now revisionId market year targetRevision expected publishedBy s =
      .ok (t, r)) :
    ∃ current target revisions, s.latestRevision market year = some current ∧
      current.revision = expected ∧ target ∈ s.revisions ∧ target.market = market ∧
      target.year = year ∧ target.revision = targetRevision ∧ target.status = .superseded ∧
      r = target.rolledBack revisionId (expected + 1) now publishedBy ∧
      (s.supersede market year).revisions.insert? r = some revisions ∧
      t = { s.supersede market year with revisions } := by
  unfold rollbackRevision at h
  obtain ⟨_, _, h⟩ := ok_bind h
  obtain ⟨current, hcurrent, h⟩ := ok_bind h
  obtain ⟨target, htarget, h⟩ := ok_bind h
  obtain ⟨_, holder, h⟩ := ok_bind h
  obtain ⟨_, _, h⟩ := ok_bind h
  obtain ⟨s', hadd, h⟩ := ok_bind h
  cases ok_pure h
  obtain ⟨hlatest, hexpected⟩ := Option.filter_eq_some_iff.mp (need_ok.mp hcurrent)
  have htarget := need_ok.mp htarget
  have hmem : target ∈ s.revisions := List.mem_of_find?_eq_some htarget
  have hrow := List.find?_some htarget
  simp only [Bool.and_eq_true, Revision.of_iff, beq_iff_eq] at hrow
  have holder := ensure_ok.mp holder
  simp only [Bool.and_eq_true, beq_iff_eq] at holder
  obtain ⟨revisions, hins, rfl⟩ := addRevision_ok hadd
  have hexpected : current.revision = expected := by simpa using hexpected
  rw [hexpected] at hins ⊢
  exact ⟨current, target, revisions, hlatest, hexpected, hmem, hrow.1.1, hrow.1.2, hrow.2,
    holder.2, rfl, hins, rfl⟩

end FinDB.Calendar
