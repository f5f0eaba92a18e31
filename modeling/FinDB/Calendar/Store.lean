import FinDB.Calendar.Inversion

/-! # The revision store

Every year is a chain of complete revisions numbered without a gap, at most one
of them published, and nothing ever rewrites the days of one. Completeness is
checked by counting; it is also what the counted rows are. -/
namespace FinDB.Calendar
open FinDB.Lib

variable {cfg : Config} {s t : State}

/-! ## The invariant -/

/-- `is_open` and the session times follow the status. -/
def RevisionDay.WellFormed (d : RevisionDay) : Prop :=
  d.isOpen = (d.dayStatus == .opened) ∧
    (d.dayStatus ≠ .opened → d.sessionOpen = none ∧ d.sessionClose = none)

/-- Each date of the year once, and the counts say so. -/
structure Revision.Complete (r : Revision) : Prop where
  dates : (r.days.rows.map (·.tradeDate)).Perm (yearDays r.year)
  expected : r.expectedDays = daysIn r.year
  actual : r.actualDays = daysIn r.year
  days : ∀ d ∈ r.days, d.WellFormed

/-- The preview and the revision it became. -/
def ImportBatch.Created (b : ImportBatch) (r : Revision) : Prop :=
  r.market = b.market ∧ r.year = b.year ∧ r.revision = b.baseRevision + 1 ∧
    r.sourceKind = b.inputFormat ∧ r.sourceSha256 = b.sourceSha256

structure Store (s : State) : Prop where
  positive : ∀ r ∈ s.revisions, 1 ≤ r.revision
  /-- One revision a number. -/
  distinct : ∀ r ∈ s.revisions, ∀ q ∈ s.revisions, r.market = q.market → r.year = q.year →
    r.revision = q.revision → r = q
  /-- No number is left out. -/
  initial : ∀ r ∈ s.revisions, ∀ k, 1 ≤ k → k ≤ r.revision →
    ∃ q ∈ s.revisions, q.market = r.market ∧ q.year = r.year ∧ q.revision = k
  published : ∀ r ∈ s.revisions, ∀ q ∈ s.revisions, r.market = q.market → r.year = q.year →
    r.status = .published → q.status = .published → r = q
  complete : ∀ r ∈ s.revisions, r.Complete
  candidates : ∀ b ∈ s.batches, WholeYear b.year b.candidateRows
  applied : ∀ b ∈ s.batches, b.status = .applied → ∃ r ∈ s.revisions, b.Created r

theorem store_init : Store State.init := by
  refine ⟨?_, ?_, ?_, ?_, ?_, ?_, ?_⟩
  · exact fun r hr => absurd hr (Table.not_mem_empty r)
  · exact fun r hr => absurd hr (Table.not_mem_empty r)
  · exact fun r hr => absurd hr (Table.not_mem_empty r)
  · exact fun r hr => absurd hr (Table.not_mem_empty r)
  · exact fun r hr => absurd hr (Table.not_mem_empty r)
  · exact fun b hb => absurd hb (Table.not_mem_empty b)
  · exact fun b hb => absurd hb (Table.not_mem_empty b)

/-! ## Numbers -/

theorem le_currentRevision {r : Revision} (hr : r ∈ s.revisions) :
    r.revision ≤ s.currentRevision r.market r.year := by
  unfold State.currentRevision
  cases hl : s.latestRevision r.market r.year with
  | none => exact absurd rfl (State.latestRevision_none hl r hr rfl)
  | some top => exact (State.latestRevision_some hl).2.2.2 r hr rfl rfl

theorem currentRevision_attained {market : String} {year : Int}
    (h : s.currentRevision market year ≠ 0) :
    ∃ r ∈ s.revisions, r.market = market ∧ r.year = year ∧
      r.revision = s.currentRevision market year := by
  unfold State.currentRevision at h ⊢
  cases hl : s.latestRevision market year with
  | none => simp [hl] at h
  | some top =>
    obtain ⟨hmem, hm, hy, _⟩ := State.latestRevision_some hl
    exact ⟨top, hmem, hm, hy, rfl⟩

theorem currentRevision_latest {market : String} {year : Int} {r : Revision}
    (h : s.latestRevision market year = some r) : s.currentRevision market year = r.revision := by
  simp [State.currentRevision, h]

/-- The numbers of a year are exactly 1 to n. -/
theorem Store.numbered (h : Store s) (market : String) (year : Int) (k : Nat) :
    (∃ r ∈ s.revisions, r.market = market ∧ r.year = year ∧ r.revision = k) ↔
      1 ≤ k ∧ k ≤ s.currentRevision market year := by
  constructor
  · rintro ⟨r, hr, rfl, rfl, rfl⟩
    exact ⟨h.positive r hr, le_currentRevision hr⟩
  · rintro ⟨hone, hle⟩
    obtain ⟨r, hr, rfl, rfl, hnum⟩ := currentRevision_attained (show s.currentRevision market year ≠ 0 by omega)
    exact h.initial r hr k hone (hnum ▸ hle)

/-! ## The writes -/

/-- Markets are not part of the invariant. -/
theorem Store.markets (h : Store s) (markets : Table Market.market) :
    Store { s with markets } :=
  ⟨h.positive, h.distinct, h.initial, h.published, h.complete, h.candidates, h.applied⟩

theorem Store.addBatch (h : Store s) {b : ImportBatch} {batches}
    (hb : s.batches.insert? b = some batches) (hstatus : b.status = .previewed)
    (hrows : WholeYear b.year b.candidateRows) : Store { s with batches } := by
  refine ⟨h.positive, h.distinct, h.initial, h.published, h.complete, fun c hc => ?_,
    fun c hc happlied => ?_⟩
  · rcases (Table.mem_insert? hb).mp hc with hc | rfl
    · exact h.candidates c hc
    · exact hrows
  · rcases (Table.mem_insert? hb).mp hc with hc | rfl
    · exact h.applied c hc happlied
    · rw [hstatus] at happlied
      cases happlied

/-- A complete revision with the next number. -/
theorem Store.addRevision (h : Store s) {r : Revision} {revisions}
    (hr : s.revisions.insert? r = some revisions)
    (hnext : r.revision = s.currentRevision r.market r.year + 1) (hcomplete : r.Complete)
    (hpublished : r.status = .published →
      ∀ q ∈ s.revisions, q.market = r.market → q.year = r.year → q.status ≠ .published) :
    Store { s with revisions } := by
  have hmem : ∀ q, q ∈ revisions ↔ q ∈ s.revisions ∨ q = r := fun q => Table.mem_insert? hr
  have hlt : ∀ q ∈ s.revisions, q.market = r.market → q.year = r.year →
      q.revision < r.revision := by
    intro q hq hm hy
    have := le_currentRevision hq
    rw [hm, hy] at this
    omega
  refine ⟨fun q hq => ?_, fun p hp q hq hm hy hn => ?_, fun p hp k hone hle => ?_,
    fun p hp q hq hm hy hps hqs => ?_, fun q hq => ?_, h.candidates, fun b hb happlied => ?_⟩
  · rcases (hmem q).mp hq with hq | rfl
    · exact h.positive q hq
    · omega
  · rcases (hmem p).mp hp with hp | rfl <;> rcases (hmem q).mp hq with hq | rfl
    · exact h.distinct p hp q hq hm hy hn
    · have := hlt p hp hm hy
      omega
    · have := hlt q hq hm.symm hy.symm
      omega
    · rfl
  · rcases (hmem p).mp hp with hp | rfl
    · obtain ⟨q, hq, hrow⟩ := h.initial p hp k hone hle
      exact ⟨q, (hmem q).mpr (Or.inl hq), hrow⟩
    · by_cases hk : k ≤ s.currentRevision p.market p.year
      · obtain ⟨q, hq, hrow⟩ := (h.numbered p.market p.year k).mpr ⟨hone, hk⟩
        exact ⟨q, (hmem q).mpr (Or.inl hq), hrow⟩
      · exact ⟨p, (hmem p).mpr (Or.inr rfl), rfl, rfl, by omega⟩
  · rcases (hmem p).mp hp with hp | rfl <;> rcases (hmem q).mp hq with hq | rfl
    · exact h.published p hp q hq hm hy hps hqs
    · exact absurd hps (hpublished hqs p hp hm hy)
    · exact absurd hqs (hpublished hps q hq hm.symm hy.symm)
    · rfl
  · rcases (hmem q).mp hq with hq | rfl
    · exact h.complete q hq
    · exact hcomplete
  · obtain ⟨q, hq, hrow⟩ := h.applied b hb happlied
    exact ⟨q, (hmem q).mpr (Or.inl hq), hrow⟩

/-- Two revisions that differ at most in their status columns. -/
structure Revision.Same (r r' : Revision) : Prop where
  revisionId : r'.revisionId = r.revisionId
  market : r'.market = r.market
  year : r'.year = r.year
  revision : r'.revision = r.revision
  expectedDays : r'.expectedDays = r.expectedDays
  actualDays : r'.actualDays = r.actualDays
  timezone : r'.timezone = r.timezone
  sourceKind : r'.sourceKind = r.sourceKind
  sourceSha256 : r'.sourceSha256 = r.sourceSha256
  days : r'.days = r.days

theorem Revision.Same.refl (r : Revision) : r.Same r :=
  ⟨rfl, rfl, rfl, rfl, rfl, rfl, rfl, rfl, rfl, rfl⟩

theorem Revision.Same.trans {p q r : Revision} (h : p.Same q) (h' : q.Same r) : p.Same r where
  revisionId := h'.revisionId.trans h.revisionId
  market := h'.market.trans h.market
  year := h'.year.trans h.year
  revision := h'.revision.trans h.revision
  expectedDays := h'.expectedDays.trans h.expectedDays
  actualDays := h'.actualDays.trans h.actualDays
  timezone := h'.timezone.trans h.timezone
  sourceKind := h'.sourceKind.trans h.sourceKind
  sourceSha256 := h'.sourceSha256.trans h.sourceSha256
  days := h'.days.trans h.days

theorem Revision.Same.complete {r r' : Revision} (h : r.Same r') (hr : r.Complete) :
    r'.Complete := by
  refine ⟨?_, ?_, ?_, ?_⟩
  · rw [h.days, h.year]
    exact hr.dates
  · rw [h.expectedDays, h.year]
    exact hr.expected
  · rw [h.actualDays, h.year]
    exact hr.actual
  · rw [h.days]
    exact hr.days

theorem Revision.Same.created {b : ImportBatch} {r r' : Revision} (h : r.Same r')
    (hr : b.Created r) : b.Created r' := by
  obtain ⟨hm, hy, hn, hk, hsha⟩ := hr
  exact ⟨h.market.trans hm, h.year.trans hy, h.revision.trans hn, h.sourceKind.trans hk,
    h.sourceSha256.trans hsha⟩

/-- Every revision of `s` is still in `t`, and `t` has no other of its id. -/
def KeepsRevisions (s t : State) : Prop := ∀ r ∈ s.revisions, ∃ r' ∈ t.revisions, r.Same r'

theorem KeepsRevisions.refl (s : State) : KeepsRevisions s s := fun r hr => ⟨r, hr, .refl r⟩

theorem KeepsRevisions.trans {s t u : State} (h : KeepsRevisions s t) (h' : KeepsRevisions t u) :
    KeepsRevisions s u := by
  intro r hr
  obtain ⟨r', hr', hsame⟩ := h r hr
  obtain ⟨r'', hr'', hsame'⟩ := h' r' hr'
  exact ⟨r'', hr'', hsame.trans hsame'⟩

/-- A write of status columns on one row. -/
theorem keepsRevisions_modify {revisionId : Uuid} {f : Revision → Revision}
    (hsame : ∀ r : Revision, r.Same (f r)) :
    KeepsRevisions s { s with
      revisions := s.revisions.modify revisionId f fun r => (hsame r).revisionId } := by
  intro r hr
  have hmem : ∀ q, q ∈ s.revisions.modify revisionId f (fun r => (hsame r).revisionId) ↔ _ :=
    fun q => Table.mem_modify
  by_cases hid : r.revisionId = revisionId
  · exact ⟨f r, (hmem (f r)).mpr (Or.inr ⟨r, hr, hid, rfl⟩), hsame r⟩
  · exact ⟨r, (hmem r).mpr (Or.inl ⟨hr, hid⟩), .refl r⟩

theorem mem_modify_same {revisionId : Uuid} {f : Revision → Revision}
    (hsame : ∀ r : Revision, r.Same (f r)) {r' : Revision}
    (hr' : r' ∈ s.revisions.modify revisionId f fun r => (hsame r).revisionId) :
    ∃ r ∈ s.revisions, r.Same r' ∧
      ((r.revisionId ≠ revisionId ∧ r' = r) ∨ (r.revisionId = revisionId ∧ r' = f r)) := by
  rcases Table.mem_modify.mp hr' with ⟨hr, hid⟩ | ⟨r, hr, hid, rfl⟩
  · exact ⟨r', hr, .refl r', Or.inl ⟨hid, rfl⟩⟩
  · exact ⟨r, hr, hsame r, Or.inr ⟨hid, rfl⟩⟩

/-- A status write keeps everything but the count of published revisions. -/
theorem Store.modify (h : Store s) {revisionId : Uuid} {f : Revision → Revision}
    (hsame : ∀ r : Revision, r.Same (f r)) {revisions : Table Revision.revisionId}
    (hrevisions : revisions = s.revisions.modify revisionId f fun r => (hsame r).revisionId)
    (hpublished : ∀ r ∈ revisions, ∀ q ∈ revisions, r.market = q.market → r.year = q.year →
      r.status = .published → q.status = .published → r = q) : Store { s with revisions } := by
  have hkept : KeepsRevisions s { s with revisions } := by
    rw [hrevisions]
    exact keepsRevisions_modify hsame
  have hback : ∀ r ∈ revisions, ∃ p ∈ s.revisions, p.Same r := by
    rw [hrevisions]
    intro r hr
    obtain ⟨p, hp, hs, _⟩ := mem_modify_same hsame hr
    exact ⟨p, hp, hs⟩
  refine ⟨fun r hr => ?_, fun r hr q hq hm hy hn => ?_, fun r hr k hone hle => ?_, hpublished,
    fun r hr => ?_, h.candidates, fun b hb happlied => ?_⟩
  · obtain ⟨p, hp, hs⟩ := hback r hr
    rw [hs.revision]
    exact h.positive p hp
  · obtain ⟨p, hp, hs⟩ := hback r hr
    obtain ⟨p', hp', hs'⟩ := hback q hq
    have heq : p = p' := h.distinct p hp p' hp'
      (by rw [← hs.market, hm, hs'.market]) (by rw [← hs.year, hy, hs'.year])
      (by rw [← hs.revision, hn, hs'.revision])
    exact Table.eq_of_key hr hq (by rw [hs.revisionId, hs'.revisionId, heq])
  · obtain ⟨p, hp, hs⟩ := hback r hr
    obtain ⟨q, hq, hm, hy, hn⟩ := h.initial p hp k hone (hs.revision ▸ hle)
    obtain ⟨q', hq', hsq⟩ := hkept q hq
    exact ⟨q', hq', by rw [hsq.market, hm, hs.market], by rw [hsq.year, hy, hs.year],
      by rw [hsq.revision, hn]⟩
  · obtain ⟨p, hp, hs⟩ := hback r hr
    exact hs.complete (h.complete p hp)
  · obtain ⟨p, hp, hrow⟩ := h.applied b hb happlied
    obtain ⟨p', hp', hsp⟩ := hkept p hp
    exact ⟨p', hp', hsp.created hrow⟩

/-! ## Superseding and publishing -/

theorem publishedRevision_none {market : String} {year : Int}
    (h : s.publishedRevision market year = none) :
    ∀ r ∈ s.revisions, r.market = market → r.year = year → r.status ≠ .published := by
  intro r hr hm hy hp
  have := List.find?_eq_none.mp h r hr
  simp [hm, hy, hp] at this

theorem publishedRevision_some {market : String} {year : Int} {p : Revision}
    (h : s.publishedRevision market year = some p) :
    p ∈ s.revisions ∧ p.market = market ∧ p.year = year ∧ p.status = .published := by
  have hrow := List.find?_some h
  simp only [Bool.and_eq_true, Revision.of_iff, beq_iff_eq] at hrow
  exact ⟨List.mem_of_find?_eq_some h, hrow.1.1, hrow.1.2, hrow.2⟩

/-- What superseding leaves: the same revisions, none of the year published. -/
structure Supersedes (market : String) (year : Int) (s t : State) : Prop where
  store : Store s → Store t
  keeps : KeepsRevisions s t
  batches : t.batches = s.batches
  markets : t.markets = s.markets
  back : ∀ r' ∈ t.revisions, ∃ r ∈ s.revisions, r.Same r' ∧ (r'.status = r.status ∨
    r.status = .published ∧ r'.status = .superseded)
  none : Store s → ∀ r ∈ t.revisions, r.market = market → r.year = year → r.status ≠ .published

theorem supersede_spec (s : State) (market : String) (year : Int) :
    Supersedes market year s (s.supersede market year) := by
  unfold State.supersede
  cases hp : s.publishedRevision market year with
  | none =>
    exact ⟨id, .refl s, rfl, rfl, fun r hr => ⟨r, hr, .refl r, Or.inl rfl⟩,
      fun _ => publishedRevision_none hp⟩
  | some p =>
    obtain ⟨hmem, hm, hy, hpub⟩ := publishedRevision_some hp
    have hsame : ∀ r : Revision, r.Same { r with status := .superseded } := fun r =>
      ⟨rfl, rfl, rfl, rfl, rfl, rfl, rfl, rfl, rfl, rfl⟩
    have hback : ∀ r' ∈ s.revisions.modify p.revisionId ({ · with status := .superseded }),
        ∃ r ∈ s.revisions, r.Same r' ∧ (r'.status = r.status ∨
          r.status = .published ∧ r'.status = .superseded) := by
      intro r' hr'
      obtain ⟨r, hr, hs, ⟨_, rfl⟩ | ⟨hid, rfl⟩⟩ := mem_modify_same hsame hr'
      · exact ⟨r', hr, hs, Or.inl rfl⟩
      · rw [Table.eq_of_key hr hmem hid] at hs ⊢
        exact ⟨p, hmem, hs, Or.inr ⟨hpub, rfl⟩⟩
    refine ⟨fun h => h.modify hsame rfl fun r hr q hq hrm hry hrs hqs => ?_,
      keepsRevisions_modify hsame, rfl, rfl, hback, fun h r hr hrm hry hrs => ?_⟩
    · obtain ⟨r₀, hr₀, hsr, hst | ⟨_, hst⟩⟩ := hback r hr
      · obtain ⟨q₀, hq₀, hsq, hqt | ⟨_, hqt⟩⟩ := hback q hq
        · have heq := h.published r₀ hr₀ q₀ hq₀ (by rw [← hsr.market, hrm, hsq.market])
            (by rw [← hsr.year, hry, hsq.year]) (hst ▸ hrs) (hqt ▸ hqs)
          exact Table.eq_of_key hr hq (by rw [hsr.revisionId, hsq.revisionId, heq])
        · rw [hqt] at hqs
          cases hqs
      · rw [hst] at hrs
        cases hrs
    · have hr : r ∈ s.revisions.modify p.revisionId ({ · with status := .superseded }) := hr
      obtain ⟨r₀, hr₀, hsr, hcase⟩ := mem_modify_same hsame hr
      rcases hcase with ⟨hid, rfl⟩ | ⟨_, rfl⟩
      · exact hid (congrArg Revision.revisionId
          (h.published r hr₀ p hmem (hrm.trans hm.symm) (hry.trans hy.symm) hrs hpub))
      · cases hrs

theorem markPublished_same (now : Instant) (publishedBy : Option String) (r : Revision) :
    r.Same { r with status := .published, publishedAt := some now, publishedBy } :=
  ⟨rfl, rfl, rfl, rfl, rfl, rfl, rfl, rfl, rfl, rfl⟩

theorem Store.markPublished (h : Store s) {r : Revision} (hr : r ∈ s.revisions) {now : Instant}
    {publishedBy : Option String}
    (hnone : ∀ q ∈ s.revisions, q.market = r.market → q.year = r.year → q.status ≠ .published) :
    Store (s.markPublished r.revisionId now publishedBy) := by
  refine h.modify (markPublished_same now publishedBy) rfl fun p hp q hq hm hy hps hqs => ?_
  obtain ⟨p₀, hp₀, hsp, hpc⟩ := mem_modify_same (markPublished_same now publishedBy) hp
  obtain ⟨q₀, hq₀, hsq, hqc⟩ := mem_modify_same (markPublished_same now publishedBy) hq
  have hm₀ : p₀.market = q₀.market := by rw [← hsp.market, hm, hsq.market]
  have hy₀ : p₀.year = q₀.year := by rw [← hsp.year, hy, hsq.year]
  rcases hpc with ⟨_, rfl⟩ | ⟨hpid, rfl⟩ <;> rcases hqc with ⟨_, rfl⟩ | ⟨hqid, rfl⟩
  · exact h.published p hp₀ q hq₀ hm₀ hy₀ hps hqs
  · rw [Table.eq_of_key hq₀ hr hqid] at hm₀ hy₀
    exact absurd hps (hnone p hp₀ hm₀ hy₀)
  · rw [Table.eq_of_key hp₀ hr hpid] at hm₀ hy₀
    exact absurd hqs (hnone q hq₀ hm₀.symm hy₀.symm)
  · rw [Table.eq_of_key hp₀ hq₀ (hpid.trans hqid.symm)]

end FinDB.Calendar
