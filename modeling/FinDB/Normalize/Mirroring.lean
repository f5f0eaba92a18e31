import FinDB.Normalize.Statistics

/-! # Statistics over a run of calls

A daily record moves the statistics in the statement after its write, so they agree after
every record that raised nothing else. A minute batch leaves them behind until it settles:
what it collected is the summary of the rows it overrode. -/
namespace FinDB.Normalize
open FinDB.Lib

section
variable {ρ ν τ α : Type}

/-! ## What moves neither rows nor statistics -/

/-- A property of the rows, the statistics and the variables of the loop. -/
def Inert (I : Work ρ ν → Prop) : Prop :=
  ∀ w w' : Work ρ ν, w'.committed = w.committed → w'.db.tables = w.db.tables →
    w'.db.stats = w.db.stats → w'.locals = w.locals → I w → I w'

variable {I P : Work ρ ν → Prop} {S : Services ρ} {runId : Uuid} {c : Db ρ}

theorem Inert.aside (h : Inert I) : Aside I :=
  ⟨fun w _ => h w _ rfl rfl rfl rfl, fun w _ _ => h w _ rfl rfl rfl rfl,
    fun w _ => h w _ rfl rfl rfl rfl⟩

theorem Inert.count (h : Inert I) (b : Bucket) : Keeps I (count b) :=
  Triple.modify fun w hw => h w _ rfl rfl rfl rfl hw

theorem Inert.updateRunStatus (h : Inert I) (status : RunStatus) (t s f : Nat)
    (message : Option String) : Keeps I (updateRunStatus S runId status t s f message) := by
  refine Triple.get fun w => ?_
  split
  · exact Triple.pure fun _ hw => hw.2
  · refine Triple.bind (Q := fun _ => I) ?_ fun _ => h.aside.onRest _
    exact Triple.modify fun w hw => h w _ rfl rfl rfl rfl hw.2

/-! ## Statements -/

/-- A canonical write is made, or nothing is. -/
theorem execWrite_spec (write : Canonical.Write) :
    Triple P (execWrite S write)
      (fun applied w => ∃ v, P v ∧ (write.run v.db.tables).2 = applied ∧
        w = { v with db := { v.db with tables := (write.run v.db.tables).1 } })
      (SqlOnly P) := by
  refine Triple.get fun w => ?_
  split
  · refine Triple.bind (Q := fun _ w' => P w ∧
      w' = { w with db := { w.db with tables := (write.run w.db.tables).1 } }) ?_ fun _ => ?_
    · exact Triple.modify fun w' hw => by
        obtain ⟨rfl, hp⟩ := hw
        exact ⟨hp, rfl⟩
    · exact Triple.pure fun w' hw => ⟨w, hw.1, rfl, hw.2⟩
  · exact Triple.throw fun _ hw => ⟨rfl, hw.2⟩

/-- The statistics of one instrument are set, or nothing is. -/
theorem upsertStats_spec (i : Uuid) (excluded : InstrumentStats)
    (update : InstrumentStats → InstrumentStats → InstrumentStats) :
    Triple P (upsertStats S i excluded update)
      (fun _ w => ∃ v, P v ∧
        w = { v with db := { v.db with stats := putStats v.db.stats i excluded update } })
      (SqlOnly P) := by
  refine Triple.get fun w => ?_
  simp only
  split
  · refine Triple.modify fun w' hw => ?_
    obtain ⟨rfl, hp⟩ := hw
    exact ⟨w', hp, rfl⟩
  · exact Triple.throw fun _ hw => ⟨rfl, hw.2⟩

/-- What a record may raise: an `SQLAlchemyError`, or anything else where `I` holds. -/
def Sound (c : Db ρ) (I : Work ρ ν → Prop) (e : Exn) (w : Work ρ ν) : Prop :=
  w.committed = c ∧ (e = .sqlalchemy ∨ I w)

/-- Statements that keep `I` unless the call ends. -/
def Within (c : Db ρ) (I : Work ρ ν → Prop) (x : Norm ρ ν α) : Prop :=
  Triple I x (fun _ => I) (Sound c I)

/-- An invariant over a call that has committed nothing. -/
def Pinned (c : Db ρ) (I : Work ρ ν → Prop) : Prop := ∀ w, I w → w.committed = c

theorem Pinned.within (hc : Pinned c I) {x : Norm ρ ν α} (h : Keeps I x) : Within c I x :=
  h.conseq (fun _ h => h) (fun _ _ h => h) fun _ w h => ⟨hc w h, Or.inr h⟩

theorem Pinned.raised (hc : Pinned c I) {x : Norm ρ ν α} {Q : α → Work ρ ν → Prop}
    (h : Triple P x Q fun _ => I) : Triple P x Q fun _ w => w.committed = c :=
  h.conseq (fun _ h => h) (fun _ _ h => h) fun _ w h => hc w h

theorem Within.bind {β : Type} {x : Norm ρ ν α} {f : α → Norm ρ ν β} (hx : Within c I x)
    (hf : ∀ a, Within c I (f a)) : Within c I (x >>= f) := Triple.bind hx hf

theorem Within.get {β : Type} {f : Work ρ ν → Norm ρ ν β} (h : ∀ w, Within c I (f w)) :
    Within c I (get >>= f) :=
  Triple.get fun w => Triple.pre (h w) fun _ hw => hw.2

theorem Pinned.throw (hc : Pinned c I) {e : Exn} : Within c I (throw e : Norm ρ ν α) :=
  hc.within Keeps.throw

/-- A handler that takes what a record raises. -/
def Handles (c : Db ρ) (I : Work ρ ν → Prop) (h : Exn → Norm ρ ν Unit) : Prop :=
  ∀ e, Triple (Sound c I e) (h e) (fun _ => I) fun _ w => w.committed = c

theorem sound_reraise {e : Exn} : Triple (Sound c I e) (throw e : Norm ρ ν Unit) (fun _ => I)
    fun _ w => w.committed = c := Triple.throw fun _ h => h.1

/-- A handler that writes an issue and counts. -/
theorem Pinned.handled (hc : Pinned c I) {e : Exn} (he : e ≠ .sqlalchemy) {x : Norm ρ ν Unit}
    (h : Keeps I x) : Triple (Sound c I e) x (fun _ => I) fun _ w => w.committed = c :=
  (hc.raised h).pre fun _ hs => hs.2.resolve_left he

/-- A record in its `try`. -/
theorem guarded_holds (hc : Pinned c I) (hI : Inert I) {body : Norm ρ ν Unit}
    {handler : Exn → Norm ρ ν Unit} (hb : Within c I body) (hh : Handles c I handler) :
    Triple I (guarded S body handler) (fun _ => I) fun _ w => w.committed = c :=
  Triple.cleanup (hb.tryCatch hh) (fun _ => hc.raised hI.aside.recordDone)
    fun _ => committed_aside.recordDone

/-! ## The frame -/

/-- Rows and statistics agree, and nothing is committed. -/
def Agree (lang : Language) (c : Db ρ) (w : Work ρ ν) : Prop := w.committed = c ∧ Mirrored lang w.db

variable {lang : Language}

theorem agree_pinned : Pinned c (Agree (ν := ν) lang c) := fun _ h => h.1

theorem Mirrored.of_eq {db db' : Db ρ} (h : Mirrored lang db) (ht : db'.tables = db.tables)
    (hs : db'.stats = db.stats) : Mirrored lang db' := by
  obtain ⟨hdated, hstats⟩ := h
  exact ⟨ht ▸ hdated, fun i => by rw [ht, hs]; exact hstats i⟩

theorem agree_inert : Inert (Agree (ν := ν) lang c) :=
  fun _ _ hcommitted ht hs _ h => ⟨hcommitted.trans h.1, h.2.of_eq ht hs⟩

theorem agree_setLocals (f : ν → ν) : Keeps (Agree (ν := ν) lang c) (setLocals f) :=
  Triple.modify fun _ h => h

/-- What stands behind a session. -/
def BothMirrored (lang : Language) (w : Work ρ ν) : Prop :=
  Mirrored lang w.committed ∧ Mirrored lang w.db

/-- A loop that keeps `I`, after which rows and statistics agree. -/
theorem processWith_mirrors {commit : Bool} {load : Norm ρ ν (List τ)} {each : τ → Norm ρ ν Unit}
    {settle : Norm ρ ν Unit} {summarize : List DQIssueRecord → Option String}
    (hc : Pinned c I) (hI : Inert I) (hcommitted : Mirrored lang c)
    (hload : Triple I load (fun _ => I) fun _ w => w.committed = c)
    (heach : ∀ x, Triple I (each x) (fun _ => I) fun _ w => w.committed = c)
    (hsettle : Triple I settle (fun _ => Agree lang c) fun _ w => w.committed = c) :
    Triple I (processWith S runId commit load each settle summarize)
      (fun _ => BothMirrored lang) fun _ => BothMirrored lang := by
  refine (rollingBack_spec (c := c) ?_).conseq (fun _ h => h)
    (fun _ _ (h : BothMirrored lang _) => h) fun _ w h => ?_
  · refine (hc.raised (hI.updateRunStatus _ _ _ _ _)).bind fun _ => hload.bind fun records => ?_
    refine Triple.bind (Q := fun _ => I) (Triple.modify fun w h => hI w _ rfl rfl rfl rfl h) fun _ => ?_
    refine (Triple.forM_inv fun x _ => heach x).bind fun _ => hsettle.bind fun _ => ?_
    refine (agree_pinned.raised agree_inert.aside.precedenceSummary).bind fun _ => ?_
    refine Triple.get fun w => ?_
    simp only
    refine Triple.bind (Q := fun _ => Agree lang c) ?_ fun _ => ?_
    · exact (agree_pinned.raised (agree_inert.updateRunStatus _ _ _ _ _)).pre fun _ h => h.2
    · split
      · refine Triple.conseq (commitSession_keeps (J := fun w => Mirrored lang w.db ∧
          (w.committed = c ∨ w.committed = w.db)) fun w h => ⟨h.1, Or.inr rfl⟩)
          (fun w h => ⟨⟨h.2, Or.inl h.1⟩, h.1⟩) (fun _ w h => ?_) fun _ _ h => h
        refine ⟨h.2.elim (fun hcom => hcom ▸ hcommitted) fun hcom => hcom ▸ h.1, h.1⟩
      · exact Triple.pure fun w h => ⟨h.1 ▸ hcommitted, h.2⟩
  · exact ⟨h.1 ▸ hcommitted, h.2 ▸ hcommitted⟩

/-! ## Daily and futures records -/

theorem upsertEod_agree (i : Uuid) (r : MappedRecord) :
    Within c (Agree (ν := ν) lang c) (upsertEod S i r runId) := by
  refine (agree_pinned.within (agree_inert.aside.onRest _)).bind fun attached => ?_
  split
  · refine Triple.bind ((execWrite_spec _).conseq (fun _ h => h) (fun _ _ h => h)
      fun _ w h => ⟨h.2.1, Or.inl h.1⟩) fun applied => ?_
    refine Triple.bind (Q := fun _ => Agree lang c) ?_ fun _ => Triple.pure fun _ h => h
    split
    · rename_i happlied
      refine (upsertStats_spec i _ _).conseq (fun _ h => h) (fun _ w h => ?_) fun e w h => ?_
      · obtain ⟨_, ⟨v, ⟨hcommitted, hdated, hstats⟩, hwritten, rfl⟩, rfl⟩ := h
        refine ⟨hcommitted, hdated, fun j => ?_⟩
        exact statsRead_eod hstats (hwritten.trans happlied) j
      · obtain ⟨he, v, hv, _, rfl⟩ := h
        exact ⟨hv.1, Or.inl he⟩
    · rename_i happlied
      refine Triple.pure fun w h => ?_
      obtain ⟨v, hv, hwritten, rfl⟩ := h
      refine agree_inert v _ rfl ?_ rfl rfl hv
      exact upsertEod_kept (hwritten.trans (Bool.eq_false_iff.mpr happlied))
  · exact agree_pinned.throw

theorem eodBody_agree (checks : OhlcChecks) (r : MappedRecord) :
    Within c (Agree lang c) (eodBody S checks runId r) := by
  have hfailed : ∀ instrumentId issues, Within c (Agree (ν := EodLocals) lang c)
      (addIssues runId instrumentId issues >>= fun _ => count .failed) := fun _ _ =>
    agree_pinned.within ((agree_inert.aside.addIssues _ _).bind fun _ => agree_inert.count _)
  refine (agree_pinned.within (agree_setLocals _)).bind fun _ => Within.get fun w => ?_
  refine (agree_pinned.within (agree_setLocals _)).bind fun _ => ?_
  generalize (validateEod S.lang checks w.locals.seenKeys r).1 = issues
  split
  · exact agree_pinned.throw
  · split
    · exact hfailed _ _
    · refine (agree_pinned.within (agree_inert.aside.onRest _)).bind fun instrument => ?_
      refine (agree_pinned.within (agree_setLocals _)).bind fun _ => ?_
      split
      · exact hfailed _ _
      · refine (agree_pinned.within (agree_inert.aside.onRest _)).bind fun _ => ?_
        refine (agree_pinned.within (agree_inert.aside.continuityIssue _ r)).bind fun _ => ?_
        refine (agree_pinned.within (agree_inert.aside.addIssues _ _)).bind fun _ => ?_
        refine (upsertEod_agree _ r).bind fun applied => ?_
        exact agree_pinned.within (agree_inert.count _)

theorem eodHandler_agree (r : MappedRecord) : Handles c (Agree lang c) (eodHandler S runId r) := by
  intro e
  cases e with
  | sqlalchemy => exact sound_reraise
  | eodPartitionUnavailable year => exact sound_reraise
  | other type_ message =>
    refine agree_pinned.handled (fun he => by cases he) ?_
    refine (agree_inert.count .failed).bind fun _ => Triple.get fun w => ?_
    exact (agree_inert.aside.addIssue _ _).pre fun _ h => h.2

theorem futuresBody_agree (r : FuturesEODRow) :
    Within c (Agree lang c) (futuresBody S runId r) := by
  refine (agree_pinned.within (agree_inert.aside.onRest _)).bind fun instrument => ?_
  refine (agree_pinned.within (agree_setLocals _)).bind fun _ => ?_
  refine (agree_pinned.within (agree_inert.aside.onRest _)).bind fun ids => ?_
  refine Triple.bind (Q := fun _ => Agree lang c) ((execWrite_spec _).conseq (fun _ h => h)
    (fun _ w h => ?_) fun _ w h => ⟨h.2.1, Or.inl h.1⟩) fun applied => ?_
  · -- the quotes are no rows the columns read
    obtain ⟨v, ⟨hcommitted, hdated, hstats⟩, _, rfl⟩ := h
    exact ⟨hcommitted, hdated, hstats⟩
  · split
    · refine (agree_pinned.within (agree_inert.count _)).bind fun _ => ?_
      refine (upsertStats_spec _ _ _).conseq (fun _ h => h) (fun _ w h => ?_)
        fun _ w h => ⟨h.2.1, Or.inl h.1⟩
      obtain ⟨v, ⟨hcommitted, hdated, hstats⟩, rfl⟩ := h
      exact ⟨hcommitted, hdated, statsRead_futures rfl hstats _⟩
    · exact agree_pinned.within (agree_inert.count _)

theorem futuresHandler_agree (raw : Json) :
    Handles c (Agree lang c) (futuresHandler runId raw) := by
  have hfailure : ∀ description, Keeps (Agree lang c) (futuresHandler.failure (ρ := ρ) runId raw description) :=
    fun description => Triple.get fun w => Triple.pre
      ((agree_inert.aside.addIssue _ _).bind fun _ => agree_inert.count _) fun _ h => h.2
  intro e
  cases e with
  | sqlalchemy => exact sound_reraise
  | eodPartitionUnavailable year => exact agree_pinned.handled (fun he => by cases he) (hfailure _)
  | other type_ message => exact agree_pinned.handled (fun he => by cases he) (hfailure _)

theorem futuresRecord_agree (raw : Json) :
    Triple (Agree lang c) (futuresRecord S runId raw) (fun _ => Agree lang c)
      fun _ w => w.committed = c := by
  refine (agree_pinned.raised (agree_setLocals _)).bind fun _ => ?_
  refine (agree_pinned.raised (agree_inert.aside.onRest _)).bind fun row => ?_
  split
  · exact agree_pinned.raised ((agree_inert.aside.addIssue _ _).bind fun _ => agree_inert.count _)
  · exact (futuresBody_agree _).tryCatch (futuresHandler_agree raw)

end

/-! ## What a minute batch collects -/

section
variable {κ ν : Type} [LinearOrder κ]

/-- A summary of closes that are there, as one of the column's values. -/
def noted (s : Span κ ν) : Span κ (Option ν) := ⟨s.first, s.latest, some s.value⟩

theorem noted_put (s : Span κ ν) (k : κ) (v : ν) : noted (s.put k v) = (noted s).put k (some v) := by
  unfold noted Span.put Span.merge Span.single
  by_cases h : s.latest ≤ k <;> simp [h]

end

section
variable {κ ν : Type} [DecidableEq κ]

theorem lookup_cons_eq (k k' : κ) (v : ν) (d : List (κ × ν)) :
    List.lookup k ((k', v) :: d) = if k = k' then some v else d.lookup k := by
  rw [List.lookup_cons]
  by_cases hk : k = k'
  · simp [hk]
  · have hne : (k == k') = false := beq_eq_false_iff_ne.mpr hk
    rw [hne, if_neg hk]

theorem lookup_dictSet (key k : κ) (v : ν) (d : List (κ × ν)) :
    (dictSet key v d).lookup k = if k = key then some v else d.lookup k := by
  induction d with
  | nil => exact lookup_cons_eq k key v []
  | cons e d ih =>
    obtain ⟨k', v'⟩ := e
    unfold dictSet
    by_cases hk' : k' = key
    · rw [if_pos hk', lookup_cons_eq, lookup_cons_eq, hk']
      by_cases hk : k = key
      · rw [if_pos hk, if_pos hk]
      · rw [if_neg hk, if_neg hk, if_neg hk]
    · rw [if_neg hk', lookup_cons_eq, lookup_cons_eq, ih]
      by_cases hk : k = key
      · rw [if_neg fun h => hk' (h.symm.trans hk), if_pos hk, if_pos hk]
      · rw [if_neg hk, if_neg hk]

theorem keys_dictSet (key : κ) (v : ν) (d : List (κ × ν)) :
    (dictSet key v d).map Prod.fst =
      if key ∈ d.map Prod.fst then d.map Prod.fst else d.map Prod.fst ++ [key] := by
  induction d with
  | nil => simp [dictSet]
  | cons e d ih =>
    obtain ⟨k', v'⟩ := e
    unfold dictSet
    by_cases hk' : k' = key
    · simp [hk']
    · have hne : key ≠ k' := Ne.symm hk'
      by_cases hmem : key ∈ d.map Prod.fst
      · rw [if_pos hmem] at ih
        have hmem' : key ∈ ((k', v') :: d).map Prod.fst := List.mem_cons_of_mem _ hmem
        rw [if_neg hk', if_pos hmem', List.map_cons, ih, List.map_cons]
      · rw [if_neg hmem] at ih
        have hmem' : key ∉ ((k', v') :: d).map Prod.fst :=
          fun h => (List.mem_cons.mp h).elim hne hmem
        rw [if_neg hk', if_neg hmem', List.map_cons, ih, List.map_cons, List.cons_append]

theorem nodup_dictSet {key : κ} {v : ν} {d : List (κ × ν)} (h : (d.map Prod.fst).Nodup) :
    ((dictSet key v d).map Prod.fst).Nodup := by
  rw [keys_dictSet]
  split
  · exact h
  · rename_i hnot
    exact List.nodup_append'.mpr ⟨h, List.nodup_singleton _, by simpa using hnot⟩

theorem lookup_of_split {k : κ} {v : ν} {done rest : List (κ × ν)}
    (h : ((done ++ (k, v) :: rest).map Prod.fst).Nodup) :
    k ∉ done.map Prod.fst ∧ (done ++ (k, v) :: rest).lookup k = some v := by
  rw [List.map_append, List.map_cons, List.nodup_append'] at h
  have hnot : k ∉ done.map Prod.fst := fun hk => h.2.2 hk List.mem_cons_self
  refine ⟨hnot, ?_⟩
  have hnone : done.lookup k = none := by
    rw [List.lookup_eq_none_iff]
    intro p hp
    simp only [bne_iff_ne, ne_eq]
    exact fun heq => hnot (heq ▸ List.mem_map_of_mem hp)
  rw [List.lookup_append, hnone, Option.none_or, List.lookup_cons]
  simp

end

/-- The closes of an instrument, with a bar that is written but not yet collected. -/
def withPending (pending : Option (Uuid × Instant × Canonical.Decimal)) (i : Uuid)
    (R : Instant → Option Canonical.Decimal → Prop) : Instant → Option Canonical.Decimal → Prop :=
  match pending with
  | none => R
  | some (j, start, close) => if i = j then putKey R start (some close) else R

section
variable {ρ : Type} {S : Services ρ} {runId : Uuid} {lang : Language} {base : Db ρ} {c : Db ρ}

/-- A batch in progress over `base`: what it collected for an instrument is the summary of
the bars that override those of before. -/
structure Batched (lang : Language) (c base : Db ρ)
    (pending : Option (Uuid × Instant × Canonical.Decimal)) (w : Work ρ MinuteLocals) : Prop where
  committed : w.committed = c
  stats : w.db.stats = base.stats
  eod : w.db.tables.eod = base.tables.eod
  dated : MinuteDated lang w.db.tables
  nodup : (w.locals.appliedStats.map Prod.fst).Nodup
  applied : ∀ i, ∃ D, Mirrors D ((w.locals.appliedStats.lookup i).map noted) ∧
    minuteCloses w.db.tables i =
      withPending pending i (override D (minuteCloses base.tables i))

variable {pending : Option (Uuid × Instant × Canonical.Decimal)}

theorem batched_pinned : Pinned c (Batched lang c base pending) := fun _ h => h.committed

theorem batched_inert : Inert (Batched lang c base pending) := by
  intro w w' hc ht hs hl h
  refine ⟨hc.trans h.committed, hs.trans h.stats, ht ▸ h.eod, ht ▸ h.dated, hl ▸ h.nodup, fun i => ?_⟩
  rw [hl, ht]
  exact h.applied i

/-- The variables of the loop beside the collection. -/
theorem batched_setLocals {f : MinuteLocals → MinuteLocals}
    (hf : ∀ l, (f l).appliedStats = l.appliedStats) :
    Keeps (Batched lang c base pending) (setLocals f) := by
  refine Triple.modify fun w h => ⟨h.committed, h.stats, h.eod, h.dated, ?_, fun i => ?_⟩
  · rw [hf]
    exact h.nodup
  · rw [hf]
    exact h.applied i

theorem batched_start {w : Work ρ MinuteLocals} (h : Mirrored lang w.db)
    (hl : w.locals.appliedStats = []) : Batched lang w.committed w.db none w := by
  refine ⟨rfl, rfl, rfl, h.dated, by rw [hl]; exact List.nodup_nil, fun i => ⟨fun _ _ => False, ?_, ?_⟩⟩
  · rw [hl]
    exact fun _ _ hf => hf
  · exact (override_nothing fun _ _ hf => hf).symm

/-- A bar that is written waits to be collected. -/
theorem upsertMinute_batched {i : Uuid} {r : MarketMinuteRecord} {start : UtcTime} {close : Dec}
    (hstart : r.barStartTime = some start) (hclose : r.close = some close)
    (hdate : r.tradeDate = lang.taipeiDate start) :
    Triple (Batched lang c base none) (upsertMinute S i r runId)
      (fun applied => Batched lang c base (if applied then some (i, instantOf start, close.value) else none))
      (Sound c (Batched lang c base none)) := by
  unfold upsertMinute
  split
  · rename_i start' stop signal hstart' _ _
    cases hstart.symm.trans hstart'
    refine (execWrite_spec _).conseq (fun _ h => h) (fun applied w h => ?_)
      fun _ w h => ⟨h.2.committed, Or.inl h.1⟩
    obtain ⟨v, hv, hwritten, rfl⟩ := h
    have hslot : DatedSlot lang ⟨i, r.tradeDate.toordinal, instantOf start⟩ :=
      ⟨start, rfl, congrArg CivilDate.toordinal hdate⟩
    cases applied with
    | false => exact batched_inert v _ rfl (upsertMinute_kept hwritten) rfl rfl hv
    | true =>
      refine ⟨hv.committed, hv.stats, hv.eod, minuteDated_upsert hv.dated hslot, hv.nodup, fun j => ?_⟩
      obtain ⟨D, hD, hcloses⟩ := hv.applied j
      refine ⟨D, hD, ?_⟩
      refine (minuteCloses_applied hv.dated hslot hwritten j).trans ?_
      have hvalue : (minuteValues r stop signal).close = some close.value := by
        unfold minuteValues
        rw [hclose]
        rfl
      rw [hvalue, hcloses]
      rfl
  · exact Triple.throw fun _ h => ⟨h.committed, Or.inr h⟩

/-- And then is. -/
theorem noteApplied_batched {i : Uuid} {r : MarketMinuteRecord} {start : UtcTime} {close : Dec}
    (hstart : r.barStartTime = some start) (hclose : r.close = some close)
    {E : Exn → Work ρ MinuteLocals → Prop} :
    Triple (Batched lang c base (some (i, instantOf start, close.value))) (noteApplied i r)
      (fun _ => Batched lang c base none) E := by
  unfold noteApplied
  rw [hstart, hclose]
  refine Triple.modify fun w h => ⟨h.committed, h.stats, h.eod, h.dated, nodup_dictSet h.nodup,
    fun j => ?_⟩
  obtain ⟨D, hD, hcloses⟩ := h.applied j
  simp only [lookup_dictSet]
  unfold withPending at hcloses ⊢
  simp only at hcloses ⊢
  by_cases hj : j = i
  · rw [if_pos hj] at hcloses ⊢
    refine ⟨putKey D (instantOf start) (some close.value), ?_, ?_⟩
    · have hput := Mirrors.put (k := instantOf start) (v := some close.value) hD
      rw [hj] at hput
      cases hlookup : w.locals.appliedStats.lookup i with
      | none =>
        rw [hlookup] at hput
        exact hput
      | some s =>
        rw [hlookup] at hput
        simp only [Option.map_some, noted_put]
        exact hput
    · rw [override_putKey]
      exact hcloses
  · rw [if_neg hj] at hcloses ⊢
    exact ⟨D, hD, hcloses⟩

theorem minuteBody_batched (raw : Json) (r : MarketMinuteRecord) :
    Within c (Batched S.lang c base none) (minuteBody S raw runId r) := by
  have hfailed : ∀ instrumentId issues, Within c (Batched S.lang c base none)
      (addIssues runId instrumentId issues >>= fun _ => count .failed) := fun _ _ =>
    batched_pinned.within ((batched_inert.aside.addIssues _ _).bind fun _ => batched_inert.count _)
  refine (batched_pinned.within (batched_setLocals fun _ => by rfl)).bind fun _ => Within.get fun w => ?_
  refine (batched_pinned.within (batched_setLocals fun _ => by rfl)).bind fun _ => ?_
  split
  · exact hfailed _ _
  · rename_i hpass
    obtain ⟨start, close, hstart, _, _, hclose, hdate⟩ :=
      present_of_validateMinute (Bool.eq_false_iff.mpr hpass)
    refine (batched_pinned.within (batched_inert.aside.onRest _)).bind fun instrument => ?_
    refine (batched_pinned.within (batched_setLocals fun _ => by rfl)).bind fun _ => ?_
    simp only
    split
    · exact hfailed _ _
    · refine (batched_pinned.within (batched_inert.aside.onRest _)).bind fun _ => ?_
      refine (batched_pinned.within (batched_inert.aside.addIssues _ _)).bind fun _ => ?_
      refine Triple.bind (upsertMinute_batched hstart hclose hdate) fun applied => ?_
      cases applied with
      | false => exact batched_pinned.within (batched_inert.count _)
      | true =>
        refine Triple.bind (Q := fun _ => Batched S.lang c base
          (some (instrument.instrumentId, instantOf start, close.value))) ?_ fun _ =>
            noteApplied_batched hstart hclose
        exact Triple.modify fun w h => batched_inert w _ rfl rfl rfl rfl h

theorem minuteHandler_batched (r : MarketMinuteRecord) :
    Handles c (Batched lang c base none) (minuteHandler runId r) := by
  have hfailure : ∀ type_, Keeps (Batched lang c base none) (minuteHandler.failure runId r type_) :=
    fun type_ => (batched_inert.count .failed).bind fun _ => Triple.get fun w =>
      (batched_inert.aside.addIssue _ _).pre fun _ h => h.2
  intro e
  cases e with
  | sqlalchemy => exact sound_reraise
  | eodPartitionUnavailable year => exact batched_pinned.handled (fun he => by cases he) (hfailure _)
  | other type_ message => exact batched_pinned.handled (fun he => by cases he) (hfailure _)

/-! ## The settlement -/

/-- The settlement after the instruments that are done. -/
structure Settling (lang : Language) (c base : Db ρ) (applied : List (Uuid × Span Instant Canonical.Decimal))
    (done : List (Uuid × Span Instant Canonical.Decimal)) (w : Work ρ MinuteLocals) : Prop where
  committed : w.committed = c
  eod : w.db.tables.eod = base.tables.eod
  dated : MinuteDated lang w.db.tables
  applied : ∀ i, ∃ D, Mirrors D ((applied.lookup i).map noted) ∧
    minuteCloses w.db.tables i = override D (minuteCloses base.tables i)
  read : ∀ i ∈ done.map Prod.fst, StatsRead w.db.tables i (w.db.stats i)
  waiting : ∀ i ∉ done.map Prod.fst, w.db.stats i = base.stats i

/-- Statistics of an instrument whose batch is merged. -/
theorem statsRead_minute {t t' : Canonical.Tables} {i : Uuid} {stored : Option InstrumentStats}
    {D : Instant → Option Canonical.Decimal → Prop} {s : Span Instant Canonical.Decimal} {now : Instant}
    (h : StatsRead t i stored) (hD : Spans D (noted s)) (heod : eodCloses t' i = eodCloses t i)
    (hminute : minuteCloses t' i = override D (minuteCloses t i)) :
    StatsRead t' i (some (statsRow InstrumentStats.withMinute stored (minuteStats s now))) := by
  cases stored with
  | none =>
    refine ⟨?_, ?_⟩
    · rw [heod]
      exact Or.inl ⟨rfl, rfl, h.1⟩
    · rw [hminute]
      exact reads_inserted h.2 hD
  | some row =>
    refine ⟨?_, ?_⟩
    · rw [heod]
      exact h.1
    · rw [hminute]
      have hmerge := h.2.merge hD
      have hlater : (row.minuteLatestBarAt.all fun stored =>
          (minuteStats s now).minuteLatestBarAt.any (decide <| stored ≤ ·)) =
          moves row.minuteLatestBarAt (some (noted s).latest) := rfl
      unfold statsRow InstrumentStats.withMinute
      simp only [hlater]
      exact hmerge

theorem settleOne (hbase : ∀ i, StatsRead base.tables i (base.stats i))
    {applied done rest : List (Uuid × Span Instant Canonical.Decimal)}
    {e : Uuid × Span Instant Canonical.Decimal} (hnodup : (applied.map Prod.fst).Nodup)
    (hsplit : done ++ e :: rest = applied) :
    Triple (Settling lang c base applied done) (updateMinuteInstrumentStats S e.1 e.2)
      (fun _ => Settling lang c base applied (done ++ [e])) fun _ w => w.committed = c := by
  obtain ⟨i, s⟩ := e
  refine (upsertStats_spec _ _ _).conseq (fun _ h => h) (fun _ w h => ?_) fun _ _ h => h.2.committed
  obtain ⟨v, hv, rfl⟩ := h
  obtain ⟨hfresh, hlookup⟩ := lookup_of_split (hsplit ▸ hnodup)
  rw [hsplit] at hlookup
  have hset : ∀ j, j ≠ i → putStats v.db.stats i (minuteStats s S.now) InstrumentStats.withMinute j =
      v.db.stats j := fun j hj => Function.update_of_ne hj _ _
  refine ⟨hv.committed, hv.eod, hv.dated, hv.applied, fun j hj => ?_, fun j hj => ?_⟩
  · rw [List.map_append, List.mem_append] at hj
    by_cases hji : j = i
    · obtain ⟨D, hD, hcloses⟩ := hv.applied i
      rw [hlookup] at hD
      rw [hji]
      refine (congrArg (StatsRead v.db.tables i) ?_).mpr (@statsRead_minute _ _ _ _ _ _ S.now (hbase i) hD ?_ hcloses)
      · refine (Function.update_self _ _ _).trans ?_
        rw [hv.waiting i hfresh]
      · unfold eodCloses
        rw [hv.eod]
    · refine (congrArg (StatsRead v.db.tables j) (hset j hji)).mpr (hv.read j ?_)
      exact hj.resolve_right fun hlast => hji (List.mem_singleton.mp hlast)
  · rw [List.map_append, List.mem_append, not_or] at hj
    exact (hset j fun hji => hj.2 (List.mem_singleton.mpr hji)).trans (hv.waiting j hj.1)

theorem settleMinute_agree (hbase : Mirrored lang base) :
    Triple (Batched lang c base none) (settleMinute S) (fun _ => Agree lang c)
      fun _ w => w.committed = c := by
  refine Triple.get fun w => ?_
  refine Triple.of_pre (φ := Batched lang c base none w) (fun _ h => h.1 ▸ h.2) fun hw => ?_
  refine Triple.conseq (Triple.forM_split (Settling lang c base w.locals.appliedStats)
    fun done e rest hsplit => settleOne hbase.stats hw.nodup hsplit) (fun w' h => ?_)
    (fun _ w' h => ⟨h.committed, h.dated, fun i => ?_⟩) fun _ _ h => h
  · obtain ⟨rfl, _⟩ := h
    exact ⟨hw.committed, hw.eod, hw.dated, hw.applied, fun i hi => (List.not_mem_nil hi).elim,
      fun i _ => congrFun hw.stats i⟩
  · by_cases hi : i ∈ w.locals.appliedStats.map Prod.fst
    · exact h.read i hi
    · obtain ⟨D, hD, hcloses⟩ := h.applied i
      have hnone : w.locals.appliedStats.lookup i = none := by
        rw [List.lookup_eq_none_iff]
        intro p hp
        simp only [bne_iff_ne, ne_eq]
        exact fun heq => hi (heq ▸ List.mem_map_of_mem hp)
      rw [hnone] at hD
      rw [override_nothing hD] at hcloses
      have heod : eodCloses w'.db.tables i = eodCloses base.tables i := by
        unfold eodCloses
        rw [h.eod]
      rw [h.waiting i hi]
      have hread := hbase.stats i
      unfold StatsRead at hread ⊢
      rw [heod, hcloses]
      exact hread

/-! ## The call -/

variable {ν τ : Type}

theorem mapped_holds {I : Work ρ ν → Prop} (hc : Pinned c I) {r : Except MappingError (List τ)} :
    Triple I (mapped r) (fun _ => I) fun _ w => w.committed = c := by
  unfold mapped
  split
  · exact hc.raised Keeps.pure
  · exact hc.raised Keeps.throw

/-- Rows and statistics agree on both sides of a session. -/
def Session.Mirrored (lang : Language) (s : Session ρ) : Prop :=
  Normalize.Mirrored lang s.committed ∧ Normalize.Mirrored lang s.db

theorem inSession_mirrored {x : Norm ρ ν Unit} {locals : ν} {s : Session ρ}
    {I : Work ρ ν → Prop} (hstart : I ⟨s.committed, s.db, .empty, 0, locals⟩)
    (h : Triple I x (fun _ => BothMirrored lang) fun _ => BothMirrored lang) :
    (inSession x locals s).2.Mirrored lang := by
  have hrun := h _ hstart
  unfold inSession
  cases hx : x ⟨s.committed, s.db, .empty, 0, locals⟩ with
  | ok a w =>
    rw [hx] at hrun
    exact hrun
  | error e w =>
    rw [hx] at hrun
    exact hrun

theorem process_mirrored (normalizer : Normalizer) (raw : Json) (commit : Bool) {s : Session ρ}
    (h : s.Mirrored S.lang) : (process S normalizer raw runId commit s).2.Mirrored S.lang := by
  obtain ⟨hcommitted, hdb⟩ := h
  have heod : ∀ checks, (inSession (processEod S checks raw runId commit) ⟨[], none⟩ s).2.Mirrored S.lang :=
    fun checks => inSession_mirrored (I := Agree S.lang s.committed) ⟨rfl, hdb⟩
      (processWith_mirrors agree_pinned agree_inert hcommitted (mapped_holds agree_pinned)
        (fun r => guarded_holds agree_pinned agree_inert (eodBody_agree checks r) (eodHandler_agree r))
        (agree_pinned.raised Keeps.pure))
  cases normalizer with
  | marketEod => exact heod _
  | marketEodV2 => exact heod _
  | marketMinute =>
    refine inSession_mirrored (I := Batched S.lang s.committed s.db none)
      (batched_start (w := ⟨s.committed, s.db, .empty, 0, ⟨[], none, []⟩⟩) hdb rfl) ?_
    refine processWith_mirrors batched_pinned batched_inert hcommitted ?_
      (fun r => guarded_holds batched_pinned batched_inert (minuteBody_batched raw r)
        (minuteHandler_batched r)) (settleMinute_agree hdb)
    refine (mapped_holds batched_pinned).bind fun records => ?_
    exact batched_pinned.raised ((batched_setLocals fun _ => by rfl).bind fun _ => Keeps.pure)
  | futuresEod =>
    exact inSession_mirrored (I := Agree S.lang s.committed) ⟨rfl, hdb⟩
      (processWith_mirrors agree_pinned agree_inert hcommitted (agree_pinned.raised Keeps.pure)
        futuresRecord_agree (agree_pinned.raised Keeps.pure))

/-! ## Runs -/

/-- What reaches a session: calls of the normalizers, what their caller does with the
transaction, and programs on the other columns. -/
inductive Reached (lang : Language) : Session ρ → Prop
  | start (db : Db ρ) (htables : db.tables = .empty) (hstats : ∀ i, db.stats i = none) :
    Reached lang ⟨db, db⟩
  | call (S : Services ρ) (hlang : S.lang = lang) (normalizer : Normalizer) (raw : Json) (runId : Uuid)
    (commit : Bool) {s : Session ρ} : Reached lang s →
    Reached lang (process S normalizer raw runId commit s).2
  | commit {s : Session ρ} : Reached lang s → Reached lang ⟨s.db, s.db⟩
  | rollback {s : Session ρ} : Reached lang s → Reached lang ⟨s.committed, s.committed⟩
  | others {s : Session ρ} (db : Db ρ) (htables : db.tables = s.db.tables)
    (hstats : db.stats = s.db.stats) : Reached lang s → Reached lang ⟨s.committed, db⟩

theorem Reached.mirrored {s : Session ρ} (h : Reached lang s) : s.Mirrored lang := by
  induction h with
  | start db htables hstats =>
    have hempty : Normalize.Mirrored lang db := by
      refine ⟨?_, fun i => ?_⟩
      · rw [htables]
        exact fun slot row hrow => by cases hrow
      · rw [hstats, htables]
        refine ⟨?_, ?_⟩
        · rintro k v ⟨row, hrow, _⟩
          cases hrow
        · rintro k v ⟨date, row, hrow, _⟩
          cases hrow
    exact ⟨hempty, hempty⟩
  | call S hlang normalizer raw runId commit _ ih =>
    rw [← hlang] at ih ⊢
    exact process_mirrored normalizer raw commit ih
  | commit _ ih => exact ⟨ih.2, ih.2⟩
  | rollback _ ih => exact ⟨ih.1, ih.1⟩
  | others db htables hstats _ ih => exact ⟨ih.1, ih.2.of_eq htables hstats⟩

/-- First and latest key of the rows of an instrument, and the value at the latest. -/
structure Tracks {κ ν : Type} [LinearOrder κ] (R : κ → ν → Prop) (first latest : Option κ)
    (value : ν) : Prop where
  first : ∃ k, first = some k ∧ IsLeast {k | ∃ v, R k v} k
  latest : ∃ k, latest = some k ∧ IsGreatest {k | ∃ v, R k v} k ∧ R k value

theorem Reads.tracks {κ ν : Type} [LinearOrder κ] {R : κ → ν → Prop} {first latest : Option κ}
    {value : ν} (h : Reads R first latest value) (hR : ∃ k v, R k v) : Tracks R first latest value := by
  rcases h with ⟨_, _, hempty⟩ | ⟨s, hfirst, hlatest, hvalue, hs⟩
  · obtain ⟨k, v, hkv⟩ := hR
    exact absurd hkv (hempty k v)
  · refine ⟨⟨s.first, hfirst, hs.isLeast⟩, ⟨s.latest, hlatest, hs.isGreatest, ?_⟩⟩
    rw [hvalue]
    exact hs.latest

/-- **Read statistics mirror canonical rows.** In every state reached from no rows, an
instrument with a daily row has a statistics row whose daily columns are the first and the
latest of its trade dates and the close at the latest; an instrument with bars likewise. -/
theorem reached_tracks {s : Session ρ} (h : Reached lang s) (i : Uuid) :
    ((∃ date row, s.db.tables.eod ⟨i, date⟩ = some row) → ∃ stats, s.db.stats i = some stats ∧
      Tracks (eodCloses s.db.tables i) stats.eodFirstDate stats.eodLatestDate stats.eodLatestClose) ∧
    ((∃ date start row, s.db.tables.minute ⟨i, date, start⟩ = some row) →
      ∃ stats, s.db.stats i = some stats ∧ Tracks (minuteCloses s.db.tables i)
        stats.minuteFirstBarAt stats.minuteLatestBarAt stats.minuteLatestClose) := by
  have hread := h.mirrored.2.stats i
  refine ⟨?_, ?_⟩
  · rintro ⟨date, row, hrow⟩
    have hclose : eodCloses s.db.tables i date row.written.values.close := ⟨row, hrow, rfl⟩
    cases hstats : s.db.stats i with
    | none =>
      rw [hstats] at hread
      exact absurd hclose (hread.1 _ _)
    | some stats =>
      rw [hstats] at hread
      exact ⟨stats, rfl, hread.1.tracks ⟨_, _, hclose⟩⟩
  · rintro ⟨date, start, row, hrow⟩
    have hclose : minuteCloses s.db.tables i start row.written.values.close := ⟨date, row, hrow, rfl⟩
    cases hstats : s.db.stats i with
    | none =>
      rw [hstats] at hread
      exact absurd hclose (hread.2 _ _)
    | some stats =>
      rw [hstats] at hread
      exact ⟨stats, rfl, hread.2.tracks ⟨_, _, hclose⟩⟩

end

/-- One instrument, and a database that accepts everything. -/
def oneInstrument : Services Unit where
  lang := asciiLanguage
  mapping := ⟨"XTAI", "equity", some "TWD", some "finlab"⟩
  control := ⟨id, .ranking ["finlab"], .absent⟩
  now := 0
  decimalContext _ := none
  resolveInstrument _ := pure ⟨7, "2330", "active", none⟩
  getOrCreateInstrument _ := pure ⟨7, "2330", "active", none⟩
  getOrCreateTradingDay _ _ := pure ()
  checkCorporateActionContinuity _ _ _ := pure none
  eodPartitionAttached _ := pure true
  newContractIds := pure (1, 2)
  validateFuturesRow _ := pure (.error "")
  runServices _ _ := pure ()
  flush := pure ()
  accepts _ _ := true
  acceptsStats _ := true
  commits _ := true

/-- A payload of two closes, the later day first. -/
def twoCloses : Json :=
  .obj [("data", .arr [
    .obj [("symbol", .str "2330"), ("trade_date", .str "2024-01-03"), ("close", .str "11.5")],
    .obj [("symbol", .str "2330"), ("trade_date", .str "2024-01-02"), ("close", .str "10.5")]])]

def noRows : Db Unit := ⟨.empty, fun _ => none, [], fun _ => none, ()⟩

/-- The session after both closes. -/
def afterTwoCloses : Session Unit :=
  (process oneInstrument .marketEod twoCloses 1 true ⟨noRows, noRows⟩).2

theorem reached_tracks_two_closes :
    (∃ date row, afterTwoCloses.db.tables.eod ⟨7, date⟩ = some row) ∧
    ∃ stats, afterTwoCloses.db.stats 7 = some stats ∧
      Tracks (eodCloses afterTwoCloses.db.tables 7) stats.eodFirstDate stats.eodLatestDate
        stats.eodLatestClose := by
  have hrow : ∃ date row, afterTwoCloses.db.tables.eod ⟨7, date⟩ = some row := by
    refine ⟨(⟨2024, 1, 3, by decide⟩ : CivilDate).toordinal, ?_⟩
    exact Option.isSome_iff_exists.mp (by decide +kernel)
  refine ⟨hrow, (@reached_tracks Unit asciiLanguage afterTwoCloses ?_ 7).1 hrow⟩
  exact .call oneInstrument rfl .marketEod twoCloses 1 true (.start noRows rfl fun _ => rfl)

end FinDB.Normalize
