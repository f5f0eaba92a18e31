import FinDB.Calendar.Store

/-! # Runs of the revision store

What each call keeps, adds and refuses, and from it what holds of a year in any
state of any run. -/
namespace FinDB.Calendar
open FinDB.Lib

variable {cfg : Config} {s t : State}

/-! ## New revisions are complete -/

theorem toDay_wellFormed {row : DayInput} {sourceKind : String} (h : row.wellFormed) :
    (row.toDay sourceKind).WellFormed := ⟨rfl, h⟩

theorem manual_wellFormed (replacement : DayInput) (date : Date) :
    (replacement.manual date).WellFormed := by
  refine ⟨rfl, fun hstatus => ?_⟩
  have hstatus : replacement.status ≠ .opened := hstatus
  simp [DayInput.manual, hstatus]

theorem draft_complete {b : ImportBatch} {revisionId : Uuid} {market : Market} {current : Nat}
    {days : Table RevisionDay.tradeDate} (hrows : WholeYear b.year b.candidateRows)
    (hdays : days.rows = b.candidateRows.map (·.toDay b.inputFormat)) :
    (b.draft revisionId market current days).Complete := by
  have hlen : b.candidateRows.length = daysIn b.year := by
    simpa using hrows.dates.length_eq
  refine ⟨?_, rfl, hlen, fun d hd => ?_⟩
  · change (days.rows.map (·.tradeDate)).Perm (yearDays b.year)
    rw [hdays, List.map_map]
    exact hrows.dates
  · have hd : d ∈ days.rows := hd
    rw [hdays] at hd
    obtain ⟨row, hrow, rfl⟩ := List.mem_map.mp hd
    exact toDay_wellFormed (hrows.wellFormed row hrow)

/-- The days an edit starts from are a whole year of well formed days. -/
theorem Store.source (h : Store s) {market : Market} {year : Int} {expected next : Nat}
    {source : List RevisionDay} (hsource : cloneSource market year expected s = .ok (source, next)) :
    (source.map (·.tradeDate)).Perm (yearDays year) ∧ (∀ d ∈ source, d.WellFormed) ∧
      ∀ p, s.latestRevision market.market year = some p → source = p.days.rows := by
  obtain ⟨_, _, ⟨hnone, rfl⟩ | ⟨p, hp, rfl⟩⟩ := cloneSource_ok hsource
  · refine ⟨?_, fun d hd => ?_, fun p hp => by rw [hnone] at hp; cases hp⟩
    · rw [List.map_map]
      exact List.Perm.of_eq (allDays_dates year market)
    · obtain ⟨row, hrow, rfl⟩ := List.mem_map.mp hd
      exact toDay_wellFormed (allDays_wellFormed hrow)
  · obtain ⟨hmem, _, hyear, _⟩ := State.latestRevision_some hp
    have hcomplete := h.complete p hmem
    -- recomputing `is_open` from the status changes nothing
    have hsame : p.days.rows.map (fun d => { d with isOpen := d.dayStatus == .opened }) =
        p.days.rows := by
      refine (List.map_congr_left fun d hd => ?_).trans (List.map_id _)
      rw [← (hcomplete.days d hd).1]
      rfl
    rw [hsame]
    refine ⟨hyear ▸ hcomplete.dates, hcomplete.days, fun q hq => ?_⟩
    rw [hp] at hq
    cases hq
    rfl

theorem edited_dates (replacement : DayInput) (date : Date) (source : List RevisionDay) :
    (source.map fun d => if d.tradeDate = date then replacement.manual d.tradeDate else d).map
      (·.tradeDate) = source.map (·.tradeDate) := by
  rw [List.map_map]
  refine List.map_congr_left fun d _ => ?_
  simp only [Function.comp]
  split
  · rfl
  · rfl

theorem rolledBack_complete {target : Revision} {revisionId : Uuid} {number : Nat} {now : Instant}
    {publishedBy : Option String} (h : target.Complete) :
    (target.rolledBack revisionId number now publishedBy).Complete := by
  have hdates : ((target.days.update (fun _ => true) ({ · with sourceKind := "rollback" })).rows.map
      (·.tradeDate)) = target.days.rows.map (·.tradeDate) :=
    Table.map_update (by intro _; rfl) (by intro _; rfl)
  refine ⟨?_, rfl, ?_, fun d hd => ?_⟩
  · exact (List.Perm.of_eq hdates).trans h.dates
  · have := h.dates.length_eq
    rwa [List.length_map, length_yearDays] at this
  · have hd : d ∈ target.days.update (fun _ => true) ({ · with sourceKind := "rollback" }) := hd
    obtain ⟨q, hq, rfl⟩ := Table.mem_update.mp hd
    exact h.days q hq

/-! ## Every operation keeps the store -/

theorem previewed_store {now : Instant} {batchId : Uuid} {r : PreviewRequest} (h : Store s)
    (hok : preview cfg now batchId r s = .ok t) : Store t := by
  obtain ⟨markets, batches, b, _, hb, rfl, hstatus, hrows⟩ := preview_ok hok
  exact (h.addBatch hb hstatus hrows).markets markets

theorem applied_store {now : Instant} {revisionId batchId : Uuid} {expected : Nat} {r : Revision}
    (h : Store s) (hok : applyPreview now revisionId batchId expected s = .ok (t, r)) :
    Store t := by
  obtain ⟨b, hb, hid, hbase, ⟨_, _, rfl⟩ | ⟨_, hcurrent, m, days, revisions, _, hdays, rfl, hins, rfl⟩⟩ :=
    applyPreview_ok hok
  · exact h
  have hnext : (b.draft revisionId m expected days).revision =
      s.currentRevision b.market b.year + 1 := congrArg (· + 1) hcurrent.symm
  have hstore : Store { s with revisions } :=
    h.addRevision hins hnext (draft_complete (h.candidates b hb) hdays) fun hp => nomatch hp
  refine ⟨hstore.positive, hstore.distinct, hstore.initial, hstore.published, hstore.complete,
    fun c hc => ?_, fun c hc happlied => ?_⟩
  · have hc : c ∈ s.batches.modify batchId ({ · with status := .applied }) := hc
    rcases Table.mem_modify.mp hc with ⟨hc, _⟩ | ⟨x, hx, _, rfl⟩
    · exact h.candidates c hc
    · exact h.candidates x hx
  · have hc : c ∈ s.batches.modify batchId ({ · with status := .applied }) := hc
    rcases Table.mem_modify.mp hc with ⟨hc, _⟩ | ⟨x, hx, hxid, rfl⟩
    · exact hstore.applied c hc happlied
    · rw [Table.eq_of_key hx hb (hxid.trans hid.symm)]
      exact ⟨_, (Table.mem_insert? hins).mpr (Or.inr rfl), rfl, rfl, congrArg (· + 1) hbase, rfl, rfl⟩

theorem edited_store {revisionId : Uuid} {market : String} {date : Date} {expected : Nat}
    {replacement : DayInput} {r : Revision} (h : Store s)
    (hok : editDay revisionId market date expected replacement s = .ok (t, r)) : Store t := by
  obtain ⟨markets, m, source, revisions, _, hm, hsource, hdays, hmarket, hyear, hnumber, hstatus,
    hexp, hact, _, hins, rfl⟩ := editDay_ok hok
  have hname : m.market = market := (Table.find?_eq_some.mp hm).2
  obtain ⟨hdates, hwf, _⟩ := (h.markets markets).source hsource
  obtain ⟨hcurrent, _, _⟩ := cloneSource_ok hsource
  have hcurrent : s.currentRevision m.market (yearOf date) = expected := hcurrent
  have hcomplete : r.Complete := by
    refine ⟨?_, ?_, ?_, fun d hd => ?_⟩
    · rw [hdays, edited_dates, hyear]
      exact hdates
    · rw [hexp, hyear]
    · have := hdates.length_eq
      rw [List.length_map, length_yearDays] at this
      rw [hact, hyear, this]
    · have hd : d ∈ r.days.rows := hd
      rw [hdays] at hd
      obtain ⟨x, hx, rfl⟩ := List.mem_map.mp hd
      split
      · exact manual_wellFormed replacement x.tradeDate
      · exact hwf x hx
  refine (h.addRevision hins ?_ hcomplete fun hp => ?_).markets markets
  · rw [hnumber, hmarket, hyear, ← hname, hcurrent]
  · rw [hstatus] at hp
    cases hp

theorem published_store {now : Instant} {market : String} {year : Int} {expected : Nat}
    {publishedBy : Option String} (h : Store s)
    (hok : publishRevision now market year expected publishedBy s = .ok t) : Store t := by
  obtain ⟨r, hlatest, _, ⟨_, rfl⟩ | ⟨hdraft, rfl⟩⟩ := publishRevision_ok hok
  · exact h
  have hs := supersede_spec s market year
  obtain ⟨hmem, hm, hy, _⟩ := State.latestRevision_some hlatest
  obtain ⟨r', hr', hsame⟩ := hs.keeps r hmem
  rw [← hsame.revisionId]
  refine (hs.store h).markPublished hr' fun q hq hqm hqy => hs.none h q hq ?_ ?_
  · rw [hqm, hsame.market, hm]
  · rw [hqy, hsame.year, hy]

theorem currentRevision_supersede (market : String) (year : Int) (m : String) (y : Int) :
    (s.supersede market year).currentRevision m y = s.currentRevision m y := by
  have hs := supersede_spec s market year
  apply Nat.le_antisymm
  · by_cases h0 : (s.supersede market year).currentRevision m y = 0
    · omega
    · obtain ⟨r', hr', rfl, rfl, hnum⟩ := currentRevision_attained h0
      obtain ⟨r, hr, hsame, _⟩ := hs.back r' hr'
      rw [← hnum, hsame.revision, hsame.market, hsame.year]
      exact le_currentRevision hr
  · by_cases h0 : s.currentRevision m y = 0
    · omega
    · obtain ⟨r, hr, rfl, rfl, hnum⟩ := currentRevision_attained h0
      obtain ⟨r', hr', hsame⟩ := hs.keeps r hr
      rw [← hnum, ← hsame.revision, ← hsame.market, ← hsame.year]
      exact le_currentRevision hr'

theorem rolledBack_store {now : Instant} {revisionId : Uuid} {market : String} {year : Int}
    {target expected : Nat} {publishedBy : Option String} {r : Revision} (h : Store s)
    (hok : rollbackRevision now revisionId market year target expected publishedBy s = .ok (t, r)) :
    Store t := by
  obtain ⟨current, q, revisions, hlatest, hexpected, hq, hqm, hqy, _, _, rfl, hins, rfl⟩ :=
    rollbackRevision_ok hok
  have hs := supersede_spec s market year
  have hcurrent : s.currentRevision market year = expected := by
    rw [currentRevision_latest hlatest, hexpected]
  refine (hs.store h).addRevision hins ?_ (rolledBack_complete (h.complete q hq))
    fun _ p hp hpm hpy => hs.none h p hp ?_ ?_
  · rw [currentRevision_supersede]
    change expected + 1 = s.currentRevision q.market q.year + 1
    rw [hqm, hqy, hcurrent]
  · exact hpm.trans hqm
  · exact hpy.trans hqy

/-- What an operation leaves, when it is not refused. -/
theorem apply_cases {P : State → Prop} (h : P s) (op : Op)
    (hmarket : ∀ row, op = .upsertMarket row → P (upsertMarket row s))
    (hpreview : ∀ now batchId r t, preview cfg now batchId r s = .ok t → P t)
    (happly : ∀ now revisionId batchId expected t r,
      applyPreview now revisionId batchId expected s = .ok (t, r) → P t)
    (hedit : ∀ revisionId market date expected replacement t r,
      editDay revisionId market date expected replacement s = .ok (t, r) → P t)
    (hpublish : ∀ now market year expected publishedBy t,
      publishRevision now market year expected publishedBy s = .ok t → P t)
    (hrollback : ∀ now revisionId market year target expected publishedBy t r,
      rollbackRevision now revisionId market year target expected publishedBy s = .ok (t, r) →
        P t) : P (apply cfg op s) := by
  have answered : ∀ (x : Except Err (State × Revision)), (∀ t r, x = .ok (t, r) → P t) →
      P (settled s (x.map (·.1))) := by
    intro x hx
    cases x with
    | error e => exact h
    | ok y => exact hx y.1 y.2 rfl
  have left : ∀ (x : Except Err State), (∀ t, x = .ok t → P t) → P (settled s x) := by
    intro x hx
    cases x with
    | error e => exact h
    | ok y => exact hx y rfl
  cases op with
  | upsertMarket row => exact hmarket row rfl
  | preview now batchId r => exact left _ (hpreview now batchId r)
  | applyPreview now revisionId batchId expected =>
    exact answered _ (happly now revisionId batchId expected)
  | editDay revisionId market date expected replacement =>
    exact answered _ (hedit revisionId market date expected replacement)
  | publish now market year expected publishedBy =>
    exact left _ (hpublish now market year expected publishedBy)
  | rollback now revisionId market year target expected publishedBy =>
    exact answered _ (hrollback now revisionId market year target expected publishedBy)

theorem upsertMarket_eq (row : Market) : ∃ markets, upsertMarket row s = { s with markets } := by
  unfold upsertMarket
  split
  · exact ⟨_, rfl⟩
  · exact ⟨_, rfl⟩

theorem apply_store (h : Store s) (op : Op) : Store (apply cfg op s) := by
  refine apply_cases h op (fun row _ => ?_) (fun _ _ _ _ => previewed_store h)
    (fun _ _ _ _ _ _ => applied_store h) (fun _ _ _ _ _ _ _ => edited_store h)
    (fun _ _ _ _ _ _ => published_store h) (fun _ _ _ _ _ _ _ _ _ => rolledBack_store h)
  obtain ⟨markets, he⟩ := upsertMarket_eq (s := s) row
  rw [he]
  exact h.markets markets

theorem Steps.store (h : Steps cfg s t) (hs : Store s) : Store t :=
  StepsIf.inv (I := Store) (fun _ op hu _ => @apply_store cfg _ hu op) h hs

theorem Reachable.store (h : Reachable cfg s) : Store s := Steps.store h store_init

/-! ## Every operation keeps the revisions and previews there are -/

/-- A preview keeps its rows, and stays applied. -/
structure ImportBatch.Same (b b' : ImportBatch) : Prop where
  batchId : b'.batchId = b.batchId
  market : b'.market = b.market
  year : b'.year = b.year
  inputFormat : b'.inputFormat = b.inputFormat
  sourceSha256 : b'.sourceSha256 = b.sourceSha256
  candidateRows : b'.candidateRows = b.candidateRows
  baseRevision : b'.baseRevision = b.baseRevision
  applied : b.status = .applied → b'.status = .applied

theorem ImportBatch.Same.refl (b : ImportBatch) : b.Same b :=
  ⟨rfl, rfl, rfl, rfl, rfl, rfl, rfl, id⟩

theorem ImportBatch.Same.trans {b c d : ImportBatch} (h : b.Same c) (h' : c.Same d) : b.Same d where
  batchId := h'.batchId.trans h.batchId
  market := h'.market.trans h.market
  year := h'.year.trans h.year
  inputFormat := h'.inputFormat.trans h.inputFormat
  sourceSha256 := h'.sourceSha256.trans h.sourceSha256
  candidateRows := h'.candidateRows.trans h.candidateRows
  baseRevision := h'.baseRevision.trans h.baseRevision
  applied := h'.applied ∘ h.applied

structure Kept (s t : State) : Prop where
  revisions : KeepsRevisions s t
  batches : ∀ b ∈ s.batches, ∃ b' ∈ t.batches, b.Same b'

theorem Kept.refl (s : State) : Kept s s := ⟨.refl s, fun b hb => ⟨b, hb, .refl b⟩⟩

theorem Kept.trans {s t u : State} (h : Kept s t) (h' : Kept t u) : Kept s u := by
  refine ⟨h.revisions.trans h'.revisions, fun b hb => ?_⟩
  obtain ⟨b', hb', hsame⟩ := h.batches b hb
  obtain ⟨b'', hb'', hsame'⟩ := h'.batches b' hb'
  exact ⟨b'', hb'', hsame.trans hsame'⟩

theorem keepsRevisions_insert {r : Revision} {revisions : Table Revision.revisionId}
    {markets : Table Market.market} {batches : Table ImportBatch.batchId}
    (hr : s.revisions.insert? r = some revisions) : KeepsRevisions s ⟨markets, revisions, batches⟩ :=
  fun q hq => ⟨q, (Table.mem_insert? hr).mpr (Or.inl hq), .refl q⟩

theorem apply_kept (op : Op) : Kept s (apply cfg op s) := by
  refine apply_cases (.refl s) op (fun row _ => ?_) (fun now batchId r t h => ?_)
    (fun now revisionId batchId expected t r h => ?_)
    (fun revisionId market date expected replacement t r h => ?_)
    (fun now market year expected publishedBy t h => ?_)
    (fun now revisionId market year target expected publishedBy t r h => ?_)
  · obtain ⟨markets, he⟩ := upsertMarket_eq (s := s) row
    rw [he]
    exact ⟨KeepsRevisions.refl s, (Kept.refl s).batches⟩
  · obtain ⟨markets, batches, b, _, hb, rfl, _, _⟩ := preview_ok h
    exact ⟨KeepsRevisions.refl s, fun c hc => ⟨c, (Table.mem_insert? hb).mpr (Or.inl hc), .refl c⟩⟩
  · obtain ⟨b, _, _, _, ⟨_, _, rfl⟩ | ⟨_, _, _, _, revisions, _, _, _, hins, rfl⟩⟩ := applyPreview_ok h
    · exact .refl t
    refine ⟨keepsRevisions_insert hins, fun c hc => ?_⟩
    have hmem : ∀ x, x ∈ s.batches.modify batchId ({ · with status := .applied }) ↔ _ :=
      fun _ => Table.mem_modify
    by_cases hk : c.batchId = batchId
    · exact ⟨_, (hmem _).mpr (Or.inr ⟨c, hc, hk, rfl⟩), ⟨rfl, rfl, rfl, rfl, rfl, rfl, rfl, fun _ => rfl⟩⟩
    · exact ⟨c, (hmem c).mpr (Or.inl ⟨hc, hk⟩), .refl c⟩
  · obtain ⟨markets, m, source, revisions, _, _, _, _, _, _, _, _, _, _, _, hins, rfl⟩ := editDay_ok h
    exact ⟨keepsRevisions_insert hins, (Kept.refl s).batches⟩
  · obtain ⟨r, _, _, ⟨_, rfl⟩ | ⟨_, rfl⟩⟩ := publishRevision_ok h
    · exact .refl t
    have hs := supersede_spec s market year
    refine ⟨hs.keeps.trans (keepsRevisions_modify (markPublished_same now publishedBy)), ?_⟩
    change ∀ b ∈ s.batches, ∃ b' ∈ (s.supersede market year).batches, b.Same b'
    rw [hs.batches]
    exact (Kept.refl s).batches
  · obtain ⟨current, q, revisions, _, _, _, _, _, _, _, _, hins, rfl⟩ := rollbackRevision_ok h
    have hs := supersede_spec s market year
    refine ⟨hs.keeps.trans (keepsRevisions_insert hins), ?_⟩
    change ∀ b ∈ s.batches, ∃ b' ∈ (s.supersede market year).batches, b.Same b'
    rw [hs.batches]
    exact (Kept.refl s).batches

theorem Steps.kept (h : Steps cfg s t) : Kept s t :=
  StepsIf.rel (I := fun _ => True) Kept.refl (fun _ _ _ hst htu => hst.trans htu)
    (fun _ _ _ _ => trivial) (fun _ op _ _ => @apply_kept cfg _ op) h trivial

/-! ## Edits and rollbacks -/

/-- A single-day edit is the next revision and copies every other day. -/
theorem editDay_differs {revisionId : Uuid} {market : String} {date : Date} {expected : Nat}
    {replacement : DayInput} {p r : Revision} (h : Store s)
    (hok : editDay revisionId market date expected replacement s = .ok (t, r))
    (hp : s.latestRevision market (yearOf date) = some p) :
    r.revision = p.revision + 1 ∧ ∀ d : RevisionDay, d.tradeDate ≠ date →
      (d ∈ r.days ↔ d ∈ p.days) := by
  obtain ⟨markets, m, source, revisions, _, hm, hsource, hdays, _, _, hnumber, _⟩ := editDay_ok hok
  have hname : m.market = market := (Table.find?_eq_some.mp hm).2
  subst hname
  have hrows : source = p.days.rows := ((h.markets markets).source hsource).2.2 p hp
  obtain ⟨hcurrent, _, _⟩ := cloneSource_ok hsource
  have hcurrent : s.currentRevision m.market (yearOf date) = expected := hcurrent
  rw [currentRevision_latest hp] at hcurrent
  refine ⟨by rw [hnumber, hcurrent], fun d hd => ?_⟩
  rw [Table.mem_def, Table.mem_def, hdays, hrows, List.mem_map]
  constructor
  · rintro ⟨x, hx, rfl⟩
    split at hd
    · rename_i hdate
      exact absurd hdate hd
    · rename_i hdate
      rw [if_neg hdate]
      exact hx
  · intro hx
    exact ⟨d, hx, if_neg hd⟩

/-- A day without the label of the call that wrote it. -/
def RevisionDay.content (d : RevisionDay) : RevisionDay := { d with sourceKind := "" }

theorem rolledBack_content (target : Revision) (revisionId : Uuid) (number : Nat) (now : Instant)
    (publishedBy : Option String) :
    (target.rolledBack revisionId number now publishedBy).days.rows.map (·.content) =
      target.days.rows.map (·.content) :=
  Table.map_update (by intro _; rfl) (by intro _; rfl)

/-! ## Outdated calls -/

/-- The call expects another revision than the latest. -/
def Op.outdated (s : State) : Op → Prop
  | .applyPreview _ _ batchId expected =>
    ∀ b ∈ s.batches, b.batchId = batchId → expected ≠ s.currentRevision b.market b.year
  | .editDay _ market date expected _ => expected ≠ s.currentRevision market (yearOf date)
  | .publish _ market year expected _ => expected ≠ s.currentRevision market year
  | .rollback _ _ market year _ expected _ => expected ≠ s.currentRevision market year
  | .upsertMarket _ | .preview _ _ _ => False

theorem apply_outdated {op : Op} (h : op.outdated s) : apply cfg op s = s := by
  cases op with
  | upsertMarket | preview => exact h.elim
  | applyPreview now revisionId batchId expected =>
    simp only [apply]
    cases hx : applyPreview now revisionId batchId expected s with
    | error e => rfl
    | ok y =>
      obtain ⟨b, hb, hid, _, ⟨_, _, ht⟩ | ⟨_, hcurrent, _⟩⟩ := applyPreview_ok (r := y.2) (t := y.1) hx
      · exact ht
      · exact absurd hcurrent.symm (h b hb hid)
  | editDay revisionId market date expected replacement =>
    simp only [apply]
    cases hx : editDay revisionId market date expected replacement s with
    | error e => rfl
    | ok y =>
      obtain ⟨markets, m, source, _, _, hm, hsource, _⟩ := editDay_ok (r := y.2) (t := y.1) hx
      have hname : m.market = market := (Table.find?_eq_some.mp hm).2
      obtain ⟨hcurrent, _, _⟩ := cloneSource_ok hsource
      have hcurrent : s.currentRevision m.market (yearOf date) = expected := hcurrent
      rw [hname] at hcurrent
      exact absurd hcurrent.symm h
  | publish now market year expected publishedBy =>
    simp only [apply]
    cases hx : publishRevision now market year expected publishedBy s with
    | error e => rfl
    | ok y =>
      obtain ⟨r, hlatest, hexpected, _⟩ := publishRevision_ok hx
      exact absurd (by rw [currentRevision_latest hlatest, hexpected]) h
  | rollback now revisionId market year target expected publishedBy =>
    simp only [apply]
    cases hx : rollbackRevision now revisionId market year target expected publishedBy s with
    | error e => rfl
    | ok y =>
      obtain ⟨r, _, _, hlatest, hexpected, _⟩ := rollbackRevision_ok (r := y.2) (t := y.1) hx
      exact absurd (by rw [currentRevision_latest hlatest, hexpected]) h

/-! ## Replays -/

theorem createdBy_of_created (h : Store s) {b : ImportBatch} {r : Revision} (hr : r ∈ s.revisions)
    (hc : b.Created r) : s.createdBy b = some r := by
  obtain ⟨hm, hy, hn, hk, hsha⟩ := hc
  cases hf : s.createdBy b with
  | none =>
    have := List.find?_eq_none.mp hf r hr
    simp [hm, hy, hn, hk, hsha] at this
  | some q =>
    have hrow := List.find?_some hf
    simp only [Bool.and_eq_true, Revision.of_iff, beq_iff_eq] at hrow
    have hq : q ∈ s.revisions := List.mem_of_find?_eq_some hf
    rw [h.distinct q hq r hr (hrow.1.1.1.1.trans hm.symm) (hrow.1.1.1.2.trans hy.symm)
      (hrow.1.1.2.trans hn.symm)]

/-- An applied preview answers with the revision it created. -/
theorem applyPreview_replays (h : Store s) {b : ImportBatch} (hb : b ∈ s.batches)
    (happlied : b.status = .applied) {r : Revision} (hr : r ∈ s.revisions) (hc : b.Created r)
    (now : Instant) (revisionId : Uuid) :
    applyPreview now revisionId b.batchId b.baseRevision s = .ok (s, r) := by
  unfold applyPreview
  rw [Table.find?_self hb]
  change (if b.status == .applied then _ else _) = _
  rw [happlied]
  change ensure (b.baseRevision == b.baseRevision) _ >>= _ = _
  rw [beq_self_eq_true]
  change need (s.createdBy b) _ >>= _ = _
  rw [createdBy_of_created h hr hc]
  rfl

/-- Replaying an apply, at any later state, answers with what it created. -/
theorem applyPreview_again {now : Instant} {revisionId batchId : Uuid} {expected : Nat}
    {r : Revision} (h : Store s)
    (hok : applyPreview now revisionId batchId expected s = .ok (t, r)) {u : State}
    (hu : Steps cfg t u) (now' : Instant) (revisionId' : Uuid) :
    ∃ r', r.Same r' ∧ applyPreview now' revisionId' batchId expected u = .ok (u, r') := by
  have hstore : Store u := Steps.store hu (applied_store h hok)
  have hfact : ∃ b ∈ t.batches, b.batchId = batchId ∧ b.baseRevision = expected ∧
      b.status = .applied ∧ r ∈ t.revisions ∧ b.Created r := by
    obtain ⟨b, hb, hid, hbase, ⟨happlied, hcreated, rfl⟩ | ⟨_, _, m, days, revisions, _, _, rfl, hins, rfl⟩⟩ :=
      applyPreview_ok hok
    · have hrow := List.find?_some hcreated
      simp only [Bool.and_eq_true, Revision.of_iff, beq_iff_eq] at hrow
      exact ⟨b, hb, hid, hbase.symm, happlied, List.mem_of_find?_eq_some hcreated,
        hrow.1.1.1.1, hrow.1.1.1.2, hrow.1.1.2, hrow.1.2, hrow.2⟩
    · have hmem : { b with status := .applied } ∈
          s.batches.modify batchId ({ · with status := .applied }) :=
        Table.mem_modify.mpr (Or.inr ⟨b, hb, hid, rfl⟩)
      exact ⟨_, hmem, hid, hbase.symm, rfl, (Table.mem_insert? hins).mpr (Or.inr rfl), rfl, rfl,
        congrArg (· + 1) hbase, rfl, rfl⟩
  obtain ⟨b, hb, rfl, rfl, happlied, hr, hm, hy, hn, hk, hsha⟩ := hfact
  obtain ⟨b', hb', hsame⟩ := (Steps.kept hu).batches b hb
  obtain ⟨r', hr', hrow⟩ := (Steps.kept hu).revisions r hr
  refine ⟨r', hrow, ?_⟩
  have hc : b'.Created r' := by
    refine ⟨?_, ?_, ?_, ?_, ?_⟩
    · rw [hrow.market, hm, hsame.market]
    · rw [hrow.year, hy, hsame.year]
    · rw [hrow.revision, hn, hsame.baseRevision]
    · rw [hrow.sourceKind, hk, hsame.inputFormat]
    · rw [hrow.sourceSha256, hsha, hsame.sourceSha256]
  have hreplay := applyPreview_replays hstore hb' (hsame.applied happlied) hr' hc now' revisionId'
  rwa [hsame.batchId, hsame.baseRevision] at hreplay

end FinDB.Calendar
