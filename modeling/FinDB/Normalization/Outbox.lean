import FinDB.Normalization.Terminal

/-! # No run is lost by the outbox

Whoever rotates the delivery of a job inserts the outbox row that carries it in the
same transaction, and nobody removes rows or changes what they carry. A delivery
that the broker lost is replaced: the stale reconciler adds one row for each job it
selects, whatever else it selects. -/
namespace FinDB.Normalization
open FinDB.Lib Relation

variable {cfg : Config} {mode : Mode} {s t : State}

/-! ## Every delivery has its row -/

/-- The current delivery of every job is in the outbox. -/
def Carried (s : State) : Prop :=
  ∀ j ∈ s.jobs, ∃ o ∈ s.outbox, o.jobId = j.jobId ∧ o.deliveryId = j.deliveryId

/-- Rewriting a job without a new delivery. -/
theorem carried_modify {jobId : Uuid} (f : Job → Job) (hf : ∀ j, (f j).jobId = j.jobId)
    (hs : Carried s) (hd : ∀ j ∈ s.jobs, j.jobId = jobId → (f j).deliveryId = j.deliveryId)
    (hjobs : t.jobs = s.jobs.modify jobId f hf) (houtbox : t.outbox = s.outbox) : Carried t := by
  intro j' hj'
  rw [hjobs, Table.mem_modify] at hj'
  rw [houtbox]
  rcases hj' with ⟨hj, _⟩ | ⟨j, hj, hid, rfl⟩
  · exact hs j' hj
  · rw [hf, hd j hj hid]
    exact hs j hj

/-- Rewriting a job together with the row that carries its new delivery. -/
theorem carried_redeliver {job : Job} (f : Job → Job) (hf : ∀ j, (f j).jobId = j.jobId)
    {row : Outbox} (hs : Carried s) (hmem : job ∈ s.jobs)
    (hcarries : Carries row job.jobId (f job).deliveryId)
    (hjobs : t.jobs = s.jobs.modify job.jobId f hf)
    (houtbox : s.outbox.insert? row = some t.outbox) : Carried t := by
  intro j' hj'
  rw [hjobs, Table.mem_modify_row hf hmem] at hj'
  rcases hj' with ⟨hj, _⟩ | rfl
  · obtain ⟨o, ho, hcarried⟩ := hs j' hj
    exact ⟨o, (Table.mem_insert? houtbox).mpr (Or.inl ho), hcarried⟩
  · exact ⟨row, (Table.mem_insert? houtbox).mpr (Or.inr rfl), hcarries.jobId.trans (hf job).symm,
      hcarries.deliveryId⟩

theorem trans_carried (h : Trans cfg mode s t) (hs : Carried s) : Carried t := by
  cases h with
  | run | broker | receive | go => exact hs
  | job _ _ _ _ _ carries hj ho =>
    intro j' hj'
    rcases (Table.mem_insert? hj).mp hj' with hold | rfl
    · obtain ⟨o, hmem, hcarried⟩ := hs j' hold
      exact ⟨o, (Table.mem_insert? ho).mpr (Or.inl hmem), hcarried⟩
    · exact ⟨_, (Table.mem_insert? ho).mpr (Or.inr rfl), carries.jobId, carries.deliveryId⟩
  | unlease f hf mem _ _ same =>
    refine carried_modify f hf hs (fun j hj hid => ?_) rfl rfl
    rw [Table.eq_of_key hj mem hid]
    exact same
  | redeliver f hf mem _ _ carries _ ho =>
    exact carried_redeliver f hf hs mem carries rfl ho
  | outbox p f hf keeps =>
    intro j hj
    obtain ⟨o, ho, hjob, hdelivery⟩ := hs j hj
    have hmem : (if p o then f o else o) ∈ s.outbox.update p f hf :=
      Table.mem_update.mpr ⟨o, ho, rfl⟩
    refine ⟨_, hmem, ?_⟩
    split
    · exact ⟨(keeps o).1.trans hjob, (keeps o).2.trans hdelivery⟩
    · exact ⟨hjob, hdelivery⟩
  | adopt | mark | finish =>
    exact carried_modify _ (by intro _; rfl) hs
      (fun _ _ _ => by simp [Job.flush, Job.marked, Job.finished]) rfl rfl
  | fail now _ message =>
    exact carried_modify (Job.failed now message) (by intro _; rfl) hs (fun _ _ _ => rfl) rfl rfl
  | retry f hf g hg _ _ jobMem _ _ _ _ _ _ _ _ _ _ carries ho =>
    exact carried_redeliver f hf hs jobMem carries rfl ho

theorem meets_free (op : Op) : op.meets cfg .free s := by
  cases op <;> first | trivial | exact fun h => h.elim

theorem Reachable.carried (h : Reachable cfg s) : Carried s := by
  have hfree : StepsIf (apply cfg) (fun s op => op.meets cfg .free s) State.init s :=
    StepsIf.weaken (fun _ op _ => meets_free op) h
  exact steps_inv (fun _ _ => trans_carried) hfree fun j hj => absurd hj (Table.not_mem_empty j)

/-! ## Lost deliveries are replaced -/

/-- The row the stale reconciler adds for a job. -/
def newDelivery (now : Instant) (row : Job × DeliveryIds) : Outbox :=
  { outboxId := row.2.outboxId, jobId := row.1.jobId, runId := row.1.runId,
    deliveryId := row.2.deliveryId, status := .pending, availableAt := now, claimUntil := none,
    publishAttempts := 0, lastError := none, publishedAt := none, createdAt := now,
    updatedAt := now }

/-- The job as it leaves it. -/
def redelivered (now : Instant) (row : Job × DeliveryIds) : Job :=
  { row.1 with status := .queued, availableAt := now, leaseExpiresAt := none,
               deliveryId := row.2.deliveryId, updatedAt := now }

/-- The outbox rows of a job. -/
def State.deliveries (s : State) (jobId : Uuid) : List Outbox :=
  s.outbox.rows.filter (·.jobId == jobId)

/-- What the reconciler may insert: no active row of the job, and an id nobody has. -/
structure Insertable (s : State) (rows : List (Job × DeliveryIds)) : Prop where
  inactive : ∀ row ∈ rows, s.hasActive row.1.jobId = false
  unused : ∀ row ∈ rows, ∀ o ∈ s.outbox, o.outboxId ≠ row.2.outboxId
  distinct : (rows.map (·.2.outboxId)).Nodup

/-- What the loop has done for a job that it had to repair, and for any other. -/
structure Repaired (now : Instant) (s t : State) (rows : List (Job × DeliveryIds)) : Prop where
  jobs : ∀ row ∈ rows, redelivered now row ∈ t.jobs
  deliveries : ∀ row ∈ rows,
    t.deliveries row.1.jobId = s.deliveries row.1.jobId ++ [newDelivery now row]
  otherJobs : ∀ j ∈ s.jobs, (∀ row ∈ rows, row.1.jobId ≠ j.jobId) → j ∈ t.jobs
  otherDeliveries : ∀ jobId, (∀ row ∈ rows, row.1.jobId ≠ jobId) →
    t.deliveries jobId = s.deliveries jobId

/-- One round of the loop. -/
theorem repairJob_repairs (now : Instant) {row : Job × DeliveryIds} (hmem : row.1 ∈ s.jobs)
    (hactive : s.hasActive row.1.jobId = false)
    (hunused : ∀ o ∈ s.outbox, o.outboxId ≠ row.2.outboxId) :
    ∃ t, repairJob now s row = .ok t ∧ t.outbox.rows = s.outbox.rows ++ [newDelivery now row] ∧
      ∀ j, j ∈ t.jobs ↔ (j ∈ s.jobs ∧ j.jobId ≠ row.1.jobId) ∨ j = redelivered now row := by
  obtain ⟨outbox, hins⟩ := Table.exists_insert? (r := newDelivery now row) hunused
  refine ⟨{ s.setJob row.1.jobId (fun j => { j with
      status := .queued, availableAt := now, leaseExpiresAt := none,
      deliveryId := row.2.deliveryId, updatedAt := now }) (by intro _; rfl) with outbox }, ?_, ?_, ?_⟩
  · have hensure : ensure (!s.hasActive row.1.jobId) "uq_normalization_outbox_active_job" = .ok () :=
      ensure_ok.mpr (by rw [hactive]; rfl)
    have hneed : need (s.outbox.insert? (newDelivery now row)) "normalization_outbox_pkey" =
        .ok outbox := need_ok.mpr hins
    unfold repairJob redeliver addOutbox
    change ensure (!s.hasActive row.1.jobId) _ >>= _ = _
    rw [hensure]
    change need (s.outbox.insert? (newDelivery now row)) _ >>= _ = _
    rw [hneed]
    rfl
  · exact Table.insert?_rows hins
  · intro j
    exact Table.mem_modify_row (by intro _; rfl) hmem

/-- The rows that are still to come are as insertable as before. -/
theorem Insertable.tail {now : Instant} {row : Job × DeliveryIds} {rows : List (Job × DeliveryIds)}
    (h : Insertable s (row :: rows)) (hp : Pending s (row :: rows))
    (houtbox : t.outbox.rows = s.outbox.rows ++ [newDelivery now row]) : Insertable t rows := by
  obtain ⟨hinactive, hunused, hdistinct⟩ := h
  have hjobs := hp.2
  simp only [List.map_cons, List.nodup_cons, List.mem_map, not_exists, not_and] at hjobs hdistinct
  refine ⟨fun r hr => ?_, fun r hr o ho => ?_, hdistinct.2⟩
  · have hold := hinactive r (List.mem_cons_of_mem _ hr)
    have hne : row.1.jobId ≠ r.1.jobId := fun he => hjobs.1 r hr he.symm
    unfold State.hasActive at hold ⊢
    rw [houtbox, List.any_append, hold]
    simp [newDelivery, hne]
  · rw [Table.mem_def, houtbox] at ho
    rcases List.mem_append.mp ho with ho | ho
    · exact hunused r (List.mem_cons_of_mem _ hr) o ho
    · rw [List.mem_singleton.mp ho]
      exact fun he => hdistinct.1 r hr he.symm

theorem deliveries_append {now : Instant} {row : Job × DeliveryIds} (jobId : Uuid)
    (houtbox : t.outbox.rows = s.outbox.rows ++ [newDelivery now row]) :
    t.deliveries jobId = if row.1.jobId = jobId then s.deliveries jobId ++ [newDelivery now row]
      else s.deliveries jobId := by
  unfold State.deliveries
  rw [houtbox, List.filter_append]
  split
  · rename_i he
    simp [newDelivery, he]
  · rename_i hne
    simp [newDelivery, hne]

theorem loop_repairs (now : Instant) (rows : List (Job × DeliveryIds)) (hp : Pending s rows)
    (hi : Insertable s rows) : ∃ t, rows.foldlM (repairJob now) s = .ok t ∧ Repaired now s t rows := by
  induction rows generalizing s with
  | nil =>
    refine ⟨s, rfl, ?_, ?_, fun j hj _ => hj, fun _ _ => rfl⟩
    · exact fun row hrow => absurd hrow List.not_mem_nil
    · exact fun row hrow => absurd hrow List.not_mem_nil
  | cons row rows ih =>
    obtain ⟨u, hu, houtbox, hjobs⟩ := repairJob_repairs now (hp.1 row List.mem_cons_self)
      (hi.inactive row List.mem_cons_self) (hi.unused row List.mem_cons_self)
    have hpu : Pending u rows := hp.tail fun j hj hne => (hjobs j).mpr (Or.inl ⟨hj, hne⟩)
    obtain ⟨t, ht, hrep⟩ := ih hpu (hi.tail hp houtbox)
    have hother : ∀ r ∈ rows, r.1.jobId ≠ row.1.jobId := by
      have hnodup := hp.2
      simp only [List.map_cons, List.nodup_cons, List.mem_map, not_exists, not_and] at hnodup
      exact hnodup.1
    refine ⟨t, ?_, ?_, ?_, ?_, ?_⟩
    · rw [List.foldlM_cons, hu]
      exact ht
    · intro r hr
      rcases List.mem_cons.mp hr with rfl | hr
      · exact hrep.otherJobs _ ((hjobs _).mpr (Or.inr rfl)) hother
      · exact hrep.jobs r hr
    · intro r hr
      rcases List.mem_cons.mp hr with rfl | hr
      · rw [hrep.otherDeliveries _ hother, deliveries_append _ houtbox, if_pos rfl]
      · rw [hrep.deliveries r hr, deliveries_append _ houtbox, if_neg (hother r hr).symm]
    · intro j hj hne
      refine hrep.otherJobs j ((hjobs j).mpr (Or.inl ⟨hj, (hne row List.mem_cons_self).symm⟩)) ?_
      exact fun r hr => hne r (List.mem_cons_of_mem _ hr)
    · intro jobId hne
      rw [hrep.otherDeliveries jobId fun r hr => hne r (List.mem_cons_of_mem _ hr),
        deliveries_append _ houtbox, if_neg (hne row List.mem_cons_self)]

/-- `uuid7()` never draws an id twice. -/
structure FreshIds (s : State) (ids : Nat → DeliveryIds) : Prop where
  unused : ∀ i, ∀ o ∈ s.outbox, o.outboxId ≠ (ids i).outboxId
  distinct : ∀ i j, (ids i).outboxId = (ids j).outboxId → i = j

theorem selected_distinct {ids : Nat → DeliveryIds} (hids : FreshIds s ids) (p : Job → Bool) :
    ((selected ids p s).map (·.2.outboxId)).Nodup := by
  have hmap : (selected ids p s).map (·.2.outboxId) =
      (List.range' 0 (s.jobs.rows.filter p).length).map fun i => (ids i).outboxId := by
    rw [← List.zipIdx_map_snd 0 (s.jobs.rows.filter p), selected, List.map_map, List.map_map]
    rfl
  rw [hmap]
  exact List.Nodup.map (fun i j => hids.distinct i j) List.nodup_range'

theorem selected_of_mem (ids : Nat → DeliveryIds) (p : Job → Bool) {j : Job} (hj : j ∈ s.jobs)
    (hp : p j = true) : ∃ i, (j, ids i) ∈ selected ids p s := by
  have hmem : j ∈ s.jobs.rows.filter p := List.mem_filter.mpr ⟨hj, hp⟩
  obtain ⟨i, hi⟩ := List.mem_iff_getElem?.mp hmem
  exact ⟨i, List.mem_map.mpr ⟨(j, i), List.mk_mem_zipIdx_iff_getElem?.mpr hi, rfl⟩⟩

theorem selected_insertable {now : Instant} {held : Uuid → Bool} {ids : Nat → DeliveryIds}
    (hids : FreshIds s ids) :
    Insertable s (selected ids (fun j => staleSelected cfg now s j && !held j.jobId) s) := by
  refine ⟨fun row hrow => ?_, fun row hrow o ho => ?_, selected_distinct hids _⟩
  · obtain ⟨_, hsel⟩ := mem_selected hrow
    simp only [staleSelected, Bool.and_eq_true, Bool.not_eq_true'] at hsel
    exact hsel.1.1.2
  · simp only [selected, List.mem_map, Prod.exists] at hrow
    obtain ⟨job, i, _, rfl⟩ := hrow
    exact hids.unused i o ho

/-- A waiting job whose delivery is overdue, in the words of the reconciler. -/
structure Overdue (cfg : Config) (now : Instant) (s : State) (j : Job) : Prop where
  waiting : j.status = .queued ∨ j.status = .retrying
  inactive : ∀ o ∈ s.outbox, o.jobId = j.jobId → o.status ≠ .pending ∧ o.status ≠ .publishing
  available : j.availableAt ≤ now
  published : ∀ o ∈ s.outbox, o.jobId = j.jobId → o.deliveryId = j.deliveryId →
    ∀ p, o.publishedAt = some p → p + cfg.lease < now

theorem Overdue.selected {now : Instant} {j : Job} (h : Overdue cfg now s j) :
    staleSelected cfg now s j = true := by
  have hactive : s.hasActive j.jobId = false := by
    refine List.any_eq_false.mpr fun o ho => ?_
    intro hboth
    simp only [Bool.and_eq_true, beq_iff_eq] at hboth
    obtain ⟨hpending, hpublishing⟩ := h.inactive o ho hboth.1
    cases hst : o.status with
    | pending => exact hpending hst
    | publishing => exact hpublishing hst
    | published => simp [hst, OutboxStatus.active] at hboth
  have hlatest : (s.latestPublishedAt j).all (fun t => decide (t + cfg.lease < now)) = true := by
    cases hmax : s.latestPublishedAt j with
    | none => rfl
    | some p =>
      obtain ⟨o, ho, hp⟩ := List.mem_filterMap.mp (List.max?_mem hmax)
      simp only [List.mem_filter, Bool.and_eq_true, beq_iff_eq] at ho
      simpa using h.published o ho.1 ho.2.1 ho.2.2 p hp
  have havailable := h.available
  unfold staleSelected
  rcases h.waiting with hst | hst
  · simp [hst, hactive, hlatest, havailable, RunStatus.terminal]
  · simp [hst, hactive, hlatest, havailable, RunStatus.terminal]

/-- The job's one new delivery, and the job that names it. -/
def RedeliveredOnce (s t : State) (ids : Nat → DeliveryIds) (j : Job) : Prop :=
  ∃ i, ∃ j' ∈ t.jobs, ∃ o, j'.jobId = j.jobId ∧ j'.status = .queued ∧
    j'.deliveryId = (ids i).deliveryId ∧ t.deliveries j.jobId = s.deliveries j.jobId ++ [o] ∧
    o.status = .pending ∧ o.runId = j.runId ∧ o.deliveryId = j'.deliveryId

/-- A published delivery that no worker ever got. -/
def unanswered : State :=
  runAll (apply quotesConfig) (delivered ++ [.markOutboxPublished 12 ⟨2000, 1, 1000, .accepted⟩])
    State.init

end FinDB.Normalization
