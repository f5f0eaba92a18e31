import FinDB.Universe.Forward
import FinDB.Universe.Rollover

/-! # Preview and apply of the repair

An apply is a sweep over the candidate dates: what it publishes becomes the prior
release of later dates. The preview is the same verdict with nothing published. -/
namespace FinDB.Universe
open FinDB.Lib

variable {cfg : Config} {now : Instant} {actor : String} {s : State}

/-! ## Candidates -/

namespace State

theorem mem_latestByDate {date : CivilDate} {c : Release} (h : s.latestByDate date = some c) :
    c ∈ s.releases ∧ c.inScope = true ∧ c.status = .candidate ∧ c.effectiveDate = date := by
  have hmem := (List.mem_insertionSort _).mp (List.mem_of_getLast? h)
  simp only [List.mem_filter, Bool.and_eq_true, beq_iff_eq] at hmem
  exact ⟨Table.mem_def.mpr hmem.1, hmem.2.1.1, hmem.2.1.2, hmem.2.2⟩

theorem pairwise_candidateDates (s : State) : s.candidateDates.Pairwise (· < ·) := by
  unfold candidateDates
  generalize hl : ((s.releases.rows.filter _).map (·.effectiveDate)).dedup = l
  have hnodup : (l.insertionSort (· ≤ ·)).Nodup :=
    (List.perm_insertionSort _ l).nodup_iff.mpr (hl ▸ List.nodup_dedup _)
  exact ((List.pairwise_insertionSort (· ≤ ·) l).and hnodup).imp fun h => lt_of_le_of_ne h.1 h.2

theorem mem_candidateDates {date : CivilDate} :
    date ∈ s.candidateDates ↔ ∃ c, s.latestByDate date = some c := by
  have hne : (∃ c, s.latestByDate date = some c) ↔ ∃ r, r ∈ s.candidatesOf date := by
    unfold latestByDate
    constructor
    · rintro ⟨c, hc⟩
      exact ⟨c, List.mem_of_getLast? hc⟩
    · rintro ⟨r, hr⟩
      cases hlast : (s.candidatesOf date).getLast? with
      | none => exact absurd hr (by rw [List.getLast?_eq_none_iff.mp hlast]; exact List.not_mem_nil)
      | some c => exact ⟨c, rfl⟩
  rw [hne]
  simp [candidateDates, candidatesOf, and_assoc]

/-! ## Promoted candidates -/

/-- The candidate of its date, where `p` accepts the date. -/
def promotable (s : State) (p : CivilDate → Bool) (r : Release) : Bool :=
  (s.latestByDate r.effectiveDate).any (·.releaseId == r.releaseId) && p r.effectiveDate

/-- The candidates of the accepted dates are published. -/
def promote (s : State) (now : Instant) (actor : String) (p : CivilDate → Bool) : State :=
  { s with
    releases := s.releases.update (s.promotable p) (·.publish now actor)
      (Release.publish_releaseId now actor) }

theorem mem_promote {p : CivilDate → Bool} {r' : Release} : r' ∈ (s.promote now actor p).releases ↔
    ∃ r ∈ s.releases, r' = if s.promotable p r = true then r.publish now actor else r :=
  @Table.mem_update _ _ Release.releaseId s.releases (s.promotable p) (·.publish now actor)
    (fun _ => rfl) r'

theorem promote_none (s : State) (now : Instant) (actor : String) :
    s.promote now actor (fun _ => false) = s := by
  have hrows : s.releases.update (s.promotable fun _ => false) (·.publish now actor) = s.releases :=
    Table.ext_rows (by simp [Table.update, promotable])
  unfold promote
  rw [hrows]

theorem promotable_latest {p : CivilDate → Bool} {date : CivilDate} {c : Release}
    (h : s.latestByDate date = some c) : s.promotable p c = p date := by
  obtain ⟨-, -, -, hdate⟩ := mem_latestByDate h
  unfold promotable
  rw [hdate, h]
  simp

/-- A date that is not accepted has the published releases it had. -/
theorem exactPublished_promote {p : CivilDate → Bool} {date : CivilDate} (h : p date = false) :
    (s.promote now actor p).exactPublished date = s.exactPublished date := by
  unfold exactPublished promote Table.update
  rw [List.any_map]
  refine congrArg (s.releases.rows.any ·) (funext fun r => ?_)
  simp only [Function.comp]
  split
  · rename_i hr
    have hne : (r.effectiveDate == date) = false := by
      refine Bool.eq_false_iff.mpr fun he => ?_
      rw [promotable, beq_iff_eq.mp he, h, Bool.and_false] at hr
      cases hr
    change (r.inScope && r.effectiveDate == date && _) = _
    rw [hne, Bool.and_false, Bool.false_and, Bool.false_and]
  · rfl

/-- An accepted date has a published release. -/
theorem exactPublished_accepted {p : CivilDate → Bool} {date : CivilDate} (h : p date = true)
    {c : Release} (hc : s.latestByDate date = some c) :
    (s.promote now actor p).exactPublished date = true := by
  obtain ⟨hmem, hscope, -, hdate⟩ := mem_latestByDate hc
  refine List.any_eq_true.mpr ⟨c.publish now actor, mem_promote.mpr ⟨c, hmem, ?_⟩, ?_⟩
  · rw [promotable_latest hc, h]
    rfl
  · change (c.inScope && c.effectiveDate == date && true) = true
    rw [hscope, hdate]
    simp

theorem filter_map_congr {α β : Type} {xs : List α} {f g : α → β} {P : β → Bool}
    (h : ∀ x ∈ xs, f x = g x ∨ P (f x) = false ∧ P (g x) = false) :
    (xs.map f).filter P = (xs.map g).filter P := by
  induction xs with
  | nil => rfl
  | cons x xs ih =>
    have hxs := ih fun y hy => h y (List.mem_cons_of_mem x hy)
    rw [List.map_cons, List.map_cons, List.filter_cons, List.filter_cons, hxs]
    rcases h x List.mem_cons_self with he | ⟨hf, hg⟩
    · rw [he]
    · rw [hf, hg]
      rfl

/-- The prior release of a date depends on the dates before it. -/
theorem prior_promote_congr {p q : CivilDate → Bool} {date : CivilDate}
    (h : ∀ d < date, p d = q d) :
    (s.promote now actor p).prior date = (s.promote now actor q).prior date := by
  unfold prior promote Table.update
  refine congrArg (fun rows => (rows.insertionSort (newestFirst · ·)).head?) (filter_map_congr fun r _ => ?_)
  by_cases hlt : r.effectiveDate < date
  · left
    rw [promotable, promotable, h _ hlt]
  · right
    have hpub (b : Bool) : (if b = true then r.publish now actor else r).effectiveDate =
        r.effectiveDate := by cases b <;> rfl
    constructor <;> rw [hpub, decide_eq_false hlt, Bool.and_false]

end State

/-! ## The verdict on a date -/

theorem safe_congr {s t : State} (hm : t.members = s.members) {date : CivilDate}
    (hp : t.prior date = s.prior date) (c : Release) : safe cfg t c date = safe cfg s c date := by
  unfold safe digestsValid State.releaseMemberValues
  rw [hp, hm]

/-- Whether the repair publishes the candidate of a date, where those of `p` are published. -/
def judged (cfg : Config) (now : Instant) (actor : String) (s : State) (p : CivilDate → Bool)
    (date : CivilDate) : Bool :=
  match s.latestByDate date with
  | none => false
  | some c => !s.exactPublished date && safe cfg (s.promote now actor p) c date

theorem judged_latest {p : CivilDate → Bool} {date : CivilDate} {c : Release}
    (h : s.latestByDate date = some c) : judged cfg now actor s p date =
      (!s.exactPublished date && safe cfg (s.promote now actor p) c date) := by
  rw [judged, h]

theorem looksBelow_judged (cfg : Config) (now : Instant) (actor : String) (s : State) :
    LooksBelow (judged cfg now actor s) := by
  intro p q date h
  unfold judged
  cases s.latestByDate date with
  | none => rfl
  | some c =>
    have hprior : (s.promote now actor p).prior date = (s.promote now actor q).prior date :=
      State.prior_promote_congr h
    exact congrArg (!s.exactPublished date && ·)
      (@safe_congr cfg (s.promote now actor q) (s.promote now actor p) rfl date hprior c)

/-! ## The loop -/

theorem reported_cons {action : Action} {r : Reviewed} {rest : List Reviewed} {id : Uuid} :
    id ∈ reported action (r :: rest) ↔
      r.action = action ∧ r.releaseId = id ∨ id ∈ reported action rest := by
  unfold reported
  rw [List.filter_cons]
  by_cases h : r.action = action
  · rw [if_pos (beq_iff_eq.mpr h), List.map_cons, List.mem_cons, and_iff_right h, eq_comm]
  · rw [if_neg (by simpa using h), or_iff_right fun hr => h hr.1]

/-- Publishing one more date. -/
theorem promote_modify {p : CivilDate → Bool} {date : CivilDate} {c : Release}
    (h : s.latestByDate date = some c) :
    ({ s.promote now actor p with
        releases := (s.promote now actor p).releases.modify c.releaseId (·.publish now actor) } : State) =
      s.promote now actor (fun d => p d || d == date) := by
  obtain ⟨hmem, -, -, hdate⟩ := State.mem_latestByDate h
  refine congrArg (fun t => ({ s with releases := t } : State)) (Table.ext_rows ?_)
  change List.map (fun r => if decide (r.releaseId = c.releaseId) = true then r.publish now actor else r)
    (List.map (fun r => if s.promotable p r = true then r.publish now actor else r) s.releases.rows) =
    List.map (fun r => if s.promotable (fun d => p d || d == date) r = true then r.publish now actor
      else r) s.releases.rows
  rw [List.map_map]
  refine List.map_congr_left fun r hr => ?_
  have hkey : decide ((if s.promotable p r then r.publish now actor else r).releaseId = c.releaseId) =
      decide (r.releaseId = c.releaseId) := by
    cases s.promotable p r <;> rfl
  have hnew : s.promotable (fun d => p d || d == date) r =
      (s.promotable p r || decide (r.releaseId = c.releaseId)) := by
    unfold State.promotable
    rw [Bool.and_or_distrib_left]
    congr 1
    rw [Bool.eq_iff_iff, Bool.and_eq_true, beq_iff_eq, decide_eq_true_eq]
    constructor
    · rintro ⟨hlatest, hrd⟩
      rw [hrd, h, Option.any_some, beq_iff_eq] at hlatest
      exact hlatest.symm
    · intro he
      have hrc : r = c := Table.eq_of_key hr hmem he
      rw [hrc, hdate, h]
      simp
  simp only [Function.comp, hkey, hnew]
  by_cases hid : r.releaseId = c.releaseId
  · simp only [hid, decide_true, Bool.or_true, if_true]
    cases s.promotable p r <;> rfl
  · simp only [hid, decide_false, Bool.or_false, Bool.false_eq_true, if_false]

/-- The preview reports the candidates that are safe with nothing published. -/
theorem reviewDates_preview (dates : List CivilDate) :
    (reviewDates cfg false now actor s dates s).2 = s ∧
    ∀ id, id ∈ reported .wouldPublish (reviewDates cfg false now actor s dates s).1 ↔
      ∃ date ∈ dates, judged cfg now actor s (fun _ => false) date = true ∧
        ∃ c, s.latestByDate date = some c ∧ c.releaseId = id := by
  induction dates with
  | nil => exact ⟨rfl, fun id => by simp [reviewDates, reported]⟩
  | cons date dates ih =>
    unfold reviewDates
    cases hc : s.latestByDate date with
    | none =>
      refine ⟨ih.1, fun id => (ih.2 id).trans ?_⟩
      simp [judged, hc]
    | some c =>
      have hj := @judged_latest cfg now actor s (fun _ => false) date c hc
      rw [State.promote_none] at hj
      have hreview : (reviewDate cfg false now actor s date c (s.candidatesOf date).length).2 = s ∧
          ((reviewDate cfg false now actor s date c (s.candidatesOf date).length).1.action =
            .wouldPublish ↔ judged cfg now actor s (fun _ => false) date = true) ∧
          (reviewDate cfg false now actor s date c (s.candidatesOf date).length).1.releaseId =
            c.releaseId := by
        unfold reviewDate
        rw [hj, Bool.and_false, if_neg Bool.false_ne_true]
        cases s.exactPublished date <;> cases safe cfg s c date <;> simp
      obtain ⟨hstate, haction, hid⟩ := hreview
      dsimp only
      rw [hstate]
      refine ⟨ih.1, fun id => ?_⟩
      rw [reported_cons, haction, hid, ih.2 id]
      simp [hc]

/-- The date a sweep has reached. -/
def extended (cfg : Config) (now : Instant) (actor : String) (s : State) (accepted : List CivilDate)
    (date : CivilDate) : List CivilDate :=
  if judged cfg now actor s (accepted.contains ·) date then accepted ++ [date] else accepted

/-- One date of an apply. -/
theorem reviewDate_apply {accepted : List CivilDate} {date : CivilDate} (hnew : date ∉ accepted)
    {c : Release} (hc : s.latestByDate date = some c) (count : Nat) :
    (reviewDate cfg true now actor (s.promote now actor (accepted.contains ·)) date c count).2 =
      s.promote now actor ((extended cfg now actor s accepted date).contains ·) ∧
    ((reviewDate cfg true now actor (s.promote now actor (accepted.contains ·)) date c count).1.action =
      .published ↔ judged cfg now actor s (accepted.contains ·) date = true) ∧
    (reviewDate cfg true now actor (s.promote now actor (accepted.contains ·)) date c
      count).1.releaseId = c.releaseId := by
  have hexact : (s.promote now actor (accepted.contains ·)).exactPublished date =
      s.exactPublished date := State.exactPublished_promote (by simpa using hnew)
  have hj := @judged_latest cfg now actor s (accepted.contains ·) date c hc
  unfold reviewDate extended
  rw [hj, hexact, Bool.and_true]
  cases s.exactPublished date with
  | true => simp
  | false =>
    cases safe cfg (s.promote now actor (accepted.contains ·)) c date with
    | true =>
      refine ⟨?_, by simp, rfl⟩
      simp only [Bool.false_eq_true, if_false, if_true, Bool.not_false, Bool.and_true]
      rw [promote_modify hc]
      refine congrArg (s.promote now actor) (funext fun d => ?_)
      rw [List.contains_append, List.contains_cons, List.contains_nil, Bool.or_false]
    | false => simp

/-- An apply publishes what a sweep with the same verdicts accepts. -/
theorem reviewDates_apply {dates accepted : List CivilDate} (hs : dates.Pairwise (· < ·))
    (hbelow : ∀ j ∈ accepted, ∀ i ∈ dates, j < i) :
    (reviewDates cfg true now actor s dates (s.promote now actor (accepted.contains ·))).2 =
      s.promote now actor ((sweep (judged cfg now actor s) accepted dates).contains ·) ∧
    ∀ id, id ∈ reported .published
        (reviewDates cfg true now actor s dates (s.promote now actor (accepted.contains ·))).1 ↔
      ∃ date ∈ dates, date ∈ sweep (judged cfg now actor s) accepted dates ∧
        ∃ c, s.latestByDate date = some c ∧ c.releaseId = id := by
  induction dates generalizing accepted with
  | nil => exact ⟨rfl, fun id => by simp [reviewDates, reported]⟩
  | cons date dates ih =>
    obtain ⟨hfirst, hs⟩ := List.pairwise_cons.mp hs
    have hnew : date ∉ accepted := fun hin => lt_irrefl _ (hbelow date hin date List.mem_cons_self)
    have hsweep : sweep (judged cfg now actor s) accepted (date :: dates) =
        sweep (judged cfg now actor s) (extended cfg now actor s accepted date) dates := rfl
    have hext : ∀ d, d ∈ extended cfg now actor s accepted date ↔
        d ∈ accepted ∨ d = date ∧ judged cfg now actor s (accepted.contains ·) date = true := by
      intro d
      unfold extended
      split <;> simp_all
    have hbelow' : ∀ j ∈ extended cfg now actor s accepted date, ∀ i ∈ dates, j < i := by
      intro j hj i hi
      rcases (hext j).mp hj with hj | ⟨rfl, -⟩
      · exact hbelow j hj i (List.mem_cons_of_mem date hi)
      · exact hfirst i hi
    have hdate : date ∈ sweep (judged cfg now actor s) (extended cfg now actor s accepted date) dates ↔
        judged cfg now actor s (accepted.contains ·) date = true := by
      constructor
      · intro hin
        rcases mem_of_mem_sweep hin with hin | hin
        · exact (((hext date).mp hin).resolve_left hnew).2
        · exact absurd (hfirst date hin) (lt_irrefl _)
      · exact fun hv => mem_sweep_of_mem ((hext date).mpr (Or.inr ⟨rfl, hv⟩))
    obtain ⟨hstate, hreported⟩ := ih hs hbelow'
    rw [hsweep]
    unfold reviewDates
    cases hc : s.latestByDate date with
    | none =>
      have hno : extended cfg now actor s accepted date = accepted := by
        simp [extended, judged, hc]
      rw [hno] at hstate hreported ⊢
      refine ⟨hstate, fun id => (hreported id).trans ?_⟩
      simp [hc]
    | some c =>
      obtain ⟨hnext, haction, hid⟩ := @reviewDate_apply cfg _ _ _ _ _ hnew _ hc (s.candidatesOf date).length
      dsimp only
      rw [hnext]
      refine ⟨hstate, fun id => ?_⟩
      rw [reported_cons, haction, hid, hreported id]
      simp [hc, hdate]

/-! ## What is published -/

/-- A candidate of `s` that is published in `t`. -/
def Publishes (s t : State) (id : Uuid) : Prop :=
  ∃ r ∈ s.releases, r.releaseId = id ∧ r.status = .candidate ∧
    ∃ r' ∈ t.releases, r'.releaseId = id ∧ r'.status = .published

theorem publishes_promote {p : CivilDate → Bool} {id : Uuid} :
    Publishes s (s.promote now actor p) id ↔
      ∃ date c, s.latestByDate date = some c ∧ c.releaseId = id ∧ p date = true := by
  constructor
  · rintro ⟨r, hr, hid, hstatus, r', hr', hid', hpub⟩
    obtain ⟨q, hq, rfl⟩ := State.mem_promote.mp hr'
    have hkey : q.releaseId = id := by
      rw [← hid']
      split <;> rfl
    cases Table.eq_of_key hq hr (hkey.trans hid.symm)
    split at hpub
    · rename_i hp
      obtain ⟨hlatest, hdate⟩ := Bool.and_eq_true_iff.mp hp
      cases hc : s.latestByDate r.effectiveDate with
      | none =>
        rw [hc] at hlatest
        cases hlatest
      | some c =>
        rw [hc, Option.any_some, beq_iff_eq] at hlatest
        exact ⟨r.effectiveDate, c, hc, hlatest.trans hid, hdate⟩
    · rw [hstatus] at hpub
      cases hpub
  · rintro ⟨date, c, hc, rfl, hp⟩
    obtain ⟨hmem, -, hstatus, -⟩ := State.mem_latestByDate hc
    refine ⟨c, hmem, rfl, hstatus, c.publish now actor, State.mem_promote.mpr ⟨c, hmem, ?_⟩, rfl, rfl⟩
    rw [State.promotable_latest hc, hp, if_pos rfl]

theorem not_publishes_self (s : State) (id : Uuid) : ¬ Publishes s s id := by
  have hpublishes := @publishes_promote 0 "" s (fun _ => false) id
  rw [State.promote_none] at hpublishes
  rw [hpublishes]
  rintro ⟨_, _, _, _, hf⟩
  cases hf

/-- The dates whose candidates an apply publishes. -/
def appliedDates (cfg : Config) (now : Instant) (actor : String) (s : State) : List CivilDate :=
  if s.dataset then sweep (judged cfg now actor s) [] s.candidateDates else []

theorem reconcile_apply (cfg : Config) (now : Instant) (actor : String) (s : State) :
    (reconcile cfg true now actor s).2 =
      s.promote now actor ((appliedDates cfg now actor s).contains ·) ∧
    ∀ id, id ∈ reported .published (reconcile cfg true now actor s).1 ↔
      Publishes s (reconcile cfg true now actor s).2 id := by
  have hloop := @reviewDates_apply cfg now actor s s.candidateDates [] s.pairwise_candidateDates
    fun j hj => absurd hj List.not_mem_nil
  have hnil : (fun d => ([] : List CivilDate).contains d) = fun _ => false := rfl
  rw [hnil, State.promote_none] at hloop
  unfold reconcile appliedDates
  cases hd : s.dataset with
  | false =>
    rw [if_pos (by rfl), if_neg Bool.false_ne_true]
    exact ⟨(s.promote_none now actor).symm,
      fun id => iff_of_false List.not_mem_nil (not_publishes_self s id)⟩
  | true =>
    rw [if_neg (by simp), if_pos rfl]
    refine ⟨hloop.1, fun id => ?_⟩
    dsimp only
    rw [if_pos rfl, hloop.1, publishes_promote, hloop.2 id]
    constructor
    · rintro ⟨date, -, hin, c, hc, hid⟩
      exact ⟨date, c, hc, hid, List.contains_iff_mem.mpr hin⟩
    · rintro ⟨date, c, hc, hid, hin⟩
      exact ⟨date, State.mem_candidateDates.mpr ⟨c, hc⟩, List.contains_iff_mem.mp hin, c, hc, hid⟩

theorem mem_appliedDates {date : CivilDate} : date ∈ appliedDates cfg now actor s ↔
    s.dataset = true ∧ date ∈ s.candidateDates ∧
      judged cfg now actor s ((appliedDates cfg now actor s).contains ·) date = true := by
  unfold appliedDates
  cases s.dataset with
  | false => simp
  | true =>
    rw [if_pos rfl, mem_sweep (looksBelow_judged cfg now actor s) s.pairwise_candidateDates
      fun j hj => absurd hj List.not_mem_nil]
    simp

/-- A date that is not accepted has the candidates it had. -/
theorem State.latestByDate_promote {p : CivilDate → Bool} {date : CivilDate} (h : p date = false) :
    (s.promote now actor p).latestByDate date = s.latestByDate date := by
  unfold State.latestByDate State.candidatesOf
  refine congrArg (fun rows : List Release =>
    (rows.insertionSort fun a b => a.createdAt ≤ b.createdAt).getLast?) ?_
  have hmap := @State.filter_map_congr _ _ s.releases.rows
    (fun r => if s.promotable p r = true then r.publish now actor else r) id
    (fun r => r.inScope && r.status == .candidate && r.effectiveDate == date) fun r _ => by
      by_cases hd : r.effectiveDate = date
      · left
        rw [State.promotable, hd, h, Bool.and_false, if_neg Bool.false_ne_true]
        rfl
      · right
        have hpub (b : Bool) : (if b = true then r.publish now actor else r).effectiveDate =
            r.effectiveDate := by cases b <;> rfl
        have hne : (r.effectiveDate == date) = false := by simpa using hd
        constructor
        · rw [hpub, hne, Bool.and_false]
        · exact Bool.and_eq_false_iff.mpr (Or.inr hne)
  rw [List.map_id] at hmap
  exact hmap

/-- After an apply no verdict is positive. -/
theorem judged_applied (now' : Instant) (actor' : String) (date : CivilDate) (hd : s.dataset = true) :
    judged cfg now' actor' (s.promote now actor ((appliedDates cfg now actor s).contains ·))
      (fun _ => false) date = false := by
  cases hin : (appliedDates cfg now actor s).contains date with
  | true =>
    obtain ⟨-, hdate, -⟩ := mem_appliedDates.mp (List.contains_iff_mem.mp hin)
    obtain ⟨c, hc⟩ := State.mem_candidateDates.mp hdate
    unfold judged
    rw [State.exactPublished_accepted hin hc]
    cases State.latestByDate _ date <;> rfl
  | false =>
    have hold : judged cfg now actor s ((appliedDates cfg now actor s).contains ·) date = false := by
      refine Bool.eq_false_iff.mpr fun hv => Bool.eq_false_iff.mp hin (List.contains_iff_mem.mpr ?_)
      refine mem_appliedDates.mpr ⟨hd, State.mem_candidateDates.mpr ?_, hv⟩
      unfold judged at hv
      split at hv
      · cases hv
      · exact ⟨_, by assumption⟩
    refine Eq.trans ?_ hold
    unfold judged
    rw [State.promote_none, State.latestByDate_promote hin, State.exactPublished_promote hin]

/-- A second apply leaves the state. -/
theorem reconcile_again (now' : Instant) (actor' : String) :
    (reconcile cfg true now' actor' (reconcile cfg true now actor s).2).2 =
      (reconcile cfg true now actor s).2 := by
  rw [(reconcile_apply cfg now' actor' _).1, (reconcile_apply cfg now actor s).1]
  have hnone : appliedDates cfg now' actor'
      (s.promote now actor ((appliedDates cfg now actor s).contains ·)) = [] := by
    rw [appliedDates]
    split
    · exact sweep_eq_nil fun date _ => judged_applied now' actor' date (by assumption)
    · rfl
  rw [hnone]
  exact State.promote_none _ now' actor'

theorem reported_preview {id : Uuid} :
    id ∈ reported .wouldPublish (reconcile cfg false now actor s).1 ↔ s.dataset = true ∧
      ∃ date c, s.latestByDate date = some c ∧ c.releaseId = id ∧
        previewed (judged cfg now actor s) s.candidateDates date = true := by
  unfold reconcile
  cases s.dataset with
  | false =>
    rw [if_pos (by rfl)]
    exact iff_of_false List.not_mem_nil fun h => by cases h.1
  | true =>
    rw [if_neg (by simp)]
    dsimp only
    rw [(reviewDates_preview s.candidateDates).2 id, and_iff_right rfl]
    constructor
    · rintro ⟨date, hdate, hv, c, hc, hid⟩
      exact ⟨date, c, hc, hid, Bool.and_eq_true_iff.mpr ⟨List.contains_iff_mem.mpr hdate, hv⟩⟩
    · rintro ⟨date, c, hc, hid, hp⟩
      obtain ⟨hdate, hv⟩ := Bool.and_eq_true_iff.mp hp
      exact ⟨date, List.contains_iff_mem.mp hdate, hv, c, hc, hid⟩

theorem publishes_applied {id : Uuid} : Publishes s (reconcile cfg true now actor s).2 id ↔
    ∃ date c, s.latestByDate date = some c ∧ c.releaseId = id ∧
      date ∈ appliedDates cfg now actor s := by
  rw [(reconcile_apply cfg now actor s).1, publishes_promote]
  simp only [List.contains_iff_mem]

theorem State.latestByDate_inj {date date' : CivilDate} {c c' : Release}
    (hc : s.latestByDate date = some c) (hc' : s.latestByDate date' = some c')
    (hid : c'.releaseId = c.releaseId) : date' = date := by
  obtain ⟨hmem, -, -, rfl⟩ := State.mem_latestByDate hc
  obtain ⟨hmem', -, -, rfl⟩ := State.mem_latestByDate hc'
  rw [Table.eq_of_key hmem' hmem hid]

/-- Releases are named and published by their dates. -/
theorem preview_names_iff : (∀ id, id ∈ reported .wouldPublish (reconcile cfg false now actor s).1 ↔
      Publishes s (reconcile cfg true now actor s).2 id) ↔
    (s.dataset = true → ∀ date, date ∈ appliedDates cfg now actor s ↔
      previewed (judged cfg now actor s) s.candidateDates date = true) := by
  simp only [reported_preview, publishes_applied]
  constructor
  · intro h hd date
    constructor
    · intro hin
      obtain ⟨c, hc⟩ := State.mem_candidateDates.mp (mem_appliedDates.mp hin).2.1
      obtain ⟨-, date', c', hc', hid, hp⟩ := (h c.releaseId).mpr ⟨date, c, hc, rfl, hin⟩
      exact State.latestByDate_inj hc hc' hid ▸ hp
    · intro hp
      obtain ⟨c, hc⟩ := State.mem_candidateDates.mp
        (List.contains_iff_mem.mp (Bool.and_eq_true_iff.mp hp).1)
      obtain ⟨date', c', hc', hid, hin⟩ := (h c.releaseId).mp ⟨hd, date, c, hc, rfl, hp⟩
      exact State.latestByDate_inj hc hc' hid ▸ hin
  · intro h id
    constructor
    · rintro ⟨hd, date, c, hc, hid, hp⟩
      exact ⟨date, c, hc, hid, (h hd date).mpr hp⟩
    · rintro ⟨date, c, hc, hid, hin⟩
      have hd := (mem_appliedDates.mp hin).1
      exact ⟨hd, date, c, hc, hid, (h hd date).mp hin⟩

/-- Preview and apply of the repair. A second apply changes nothing; an apply publishes one
candidate a date, with the digests of its members. The preview names what an apply publishes
exactly when no verdict changes once everything it names is published. -/
theorem repair_preview_iff (cfg : Config) (now : Instant) (actor : String) (s : State) :
    (reconcile cfg false now actor s).2 = s ∧
    (∀ now' actor', (reconcile cfg true now' actor' (reconcile cfg true now actor s).2).2 =
        (reconcile cfg true now actor s).2 ∧
      ∀ id, ¬ Publishes (reconcile cfg true now actor s).2
        (reconcile cfg true now' actor' (reconcile cfg true now actor s).2).2 id) ∧
    (∀ r ∈ s.releases, ∀ r' ∈ s.releases, r.effectiveDate = r'.effectiveDate →
      Publishes s (reconcile cfg true now actor s).2 r.releaseId →
      Publishes s (reconcile cfg true now actor s).2 r'.releaseId → r = r') ∧
    (∀ r ∈ s.releases, Publishes s (reconcile cfg true now actor s).2 r.releaseId →
      digestsValid cfg s r = (true, true)) ∧
    (∀ id, id ∈ reported .published (reconcile cfg true now actor s).1 ↔
      Publishes s (reconcile cfg true now actor s).2 id) ∧
    ((∀ id, id ∈ reported .wouldPublish (reconcile cfg false now actor s).1 ↔
        Publishes s (reconcile cfg true now actor s).2 id) ↔
      (s.dataset = true → ∀ date ∈ s.candidateDates,
        judged cfg now actor s (fun _ => false) date =
          judged cfg now actor s (previewed (judged cfg now actor s) s.candidateDates) date)) := by
  have hlatest {r : Release} (hr : r ∈ s.releases)
      (h : Publishes s (reconcile cfg true now actor s).2 r.releaseId) :
      s.latestByDate r.effectiveDate = some r ∧
        r.effectiveDate ∈ appliedDates cfg now actor s := by
    obtain ⟨date, c, hc, hid, hin⟩ := publishes_applied.mp h
    obtain ⟨hmem, -, -, hdate⟩ := State.mem_latestByDate hc
    cases Table.eq_of_key hmem hr hid
    rw [hdate]
    exact ⟨hc, hin⟩
  refine ⟨?_, fun now' actor' => ?_, fun r hr r' hr' hdate h h' => ?_, fun r hr h => ?_,
    (reconcile_apply cfg now actor s).2, ?_⟩
  · unfold reconcile
    cases s.dataset <;> rfl
  · rw [reconcile_again]
    exact ⟨rfl, not_publishes_self _⟩
  · have hc := (hlatest hr h).1
    rw [hdate, (hlatest hr' h').1] at hc
    exact (Option.some.inj hc).symm
  · obtain ⟨hc, hin⟩ := hlatest hr h
    obtain ⟨-, -, hv⟩ := mem_appliedDates.mp hin
    rw [judged_latest hc, Bool.and_eq_true] at hv
    have hsafe := hv.2
    unfold safe at hsafe
    split at hsafe
    · cases hsafe
    · simp only [Bool.and_eq_true] at hsafe
      exact Prod.ext hsafe.1.1 hsafe.1.2
  · rw [preview_names_iff]
    refine forall_congr' fun hd => ?_
    rw [← sweep_eq_previewed_iff (looksBelow_judged cfg now actor s) s.pairwise_candidateDates]
    unfold appliedDates
    rw [if_pos hd]

/-! ## A chain of rolls -/

/-- A TAIFEX release with the named members. -/
def sampleRelease (releaseId : Uuid) (day : Nat) (h : 1 ≤ day ∧ day ≤ 31) (months : String)
    (status : ReleaseStatus) : Release where
  releaseId := releaseId
  datasetKey := "tw_futures_eod"
  provider := .taifex
  effectiveDate := ⟨2026, 7, day, by simpa [monthDays] using h⟩
  memberSha256 := months
  semanticMemberSha256 := months
  status := status
  publishedAt := none
  publishedBy := none
  approvalNote := none
  createdAt := 0

/-- Members by their keys. -/
def sampleConfig : Config where
  digest values := String.join (values.map (·.member.memberKey))
  semanticDigest members := String.join (members.map (·.memberKey))
  upper := String.toUpper

/-- One published release and two candidates, each of which adds a month and drops one. -/
def sampleChain : State where
  dataset := true
  releases := ⟨[
    sampleRelease 1 1 (by decide) "TX:202607:regularTX:202608:regular" .published,
    sampleRelease 2 2 (by decide) "TX:202608:regularTX:202609:regular" .candidate,
    sampleRelease 3 3 (by decide) "TX:202609:regularTX:202610:regular" .candidate], by decide⟩
  members := [(1, "202607"), (1, "202608"), (2, "202608"), (2, "202609"), (3, "202609"),
    (3, "202610")].map fun m => (m.1, ⟨sampleContract m.2, none⟩)

/-- The second candidate is only safe after the first: the preview leaves it to review, and an
apply publishes it. -/
theorem repair_preview_chain :
    reported .wouldPublish (reconcile sampleConfig false 0 "repair" sampleChain).1 = [2] ∧
    reported .manualReview (reconcile sampleConfig false 0 "repair" sampleChain).1 = [3] ∧
    reported .published (reconcile sampleConfig true 0 "repair" sampleChain).1 = [2, 3] := by
  decide +kernel

end FinDB.Universe
