import FinDB.Members.Effects

/-! # Any methods in any order

The methods of any processes, in any order and refused ones too: a body, its digest and the
receipts of a row never change, and a row that ends leaves its plan to be evaluated. -/
namespace FinDB.Members
open FinDB.Lib

inductive Op where
  | recordPlan (plan : Plan) (provider : String)
  | evaluate (planId : String) (summary : Summary)
  | claim (key : String) (now lease : Instant) (nextCursor : Option Nat)
  | prepare (key : String) (body : Bytes)
  | saveSequenceReceipt (key idempotencyKey runId : String)
  | deferWait (key : String) (now : Instant) (reason : String) (delaySeconds : Nat)
  | startOutage (key : String) (now : Instant)
  | clearProviderOutage (planId : String)
  | recordNoDataTrip (planId : String) (until_ : Instant)
  | clearNoDataTrips (planId : String)
  | stageSourceError (key : String)
  | stageEmptyResponse (key : String) (now delay : Instant) (exhausted : Bool) (reason : String)
  | acknowledgeEmpty (key : String)
  | applyMemberRepair (key repairId : String)
  | finish (key : String) (status : WorkStatus) (reason receipt : Option String) (now : Instant)

variable (checksum : Bytes → String)

def Op.run (s : Store) : Op → Except Err Store
  | .recordPlan plan provider => .ok (s.recordPlan plan provider)
  | .evaluate planId summary => .ok (s.evaluate planId summary)
  | .claim key now lease nextCursor => .ok (s.claim key now lease nextCursor).1
  | .prepare key body => s.prepare checksum key body
  | .saveSequenceReceipt key idempotencyKey runId => s.saveSequenceReceipt key idempotencyKey runId
  | .deferWait key now reason delaySeconds => s.deferWait key now reason delaySeconds
  | .startOutage key now => .ok (s.startOutage key now).1
  | .clearProviderOutage planId => .ok (s.clearProviderOutage planId)
  | .recordNoDataTrip planId until_ => .ok (s.recordNoDataTrip planId until_)
  | .clearNoDataTrips planId => .ok (s.clearNoDataTrips planId)
  | .stageSourceError key => .ok (s.stageSourceError key)
  | .stageEmptyResponse key now delay exhausted reason =>
    s.stageEmptyResponse key now delay exhausted reason
  | .acknowledgeEmpty key => .ok (s.acknowledgeEmpty key)
  | .applyMemberRepair key repairId => Prod.fst <$> s.applyMemberRepair key repairId
  | .finish key status reason receipt now => .ok (s.finish key status reason receipt now)

/-- A method; one that raises is rolled back. -/
def step (op : Op) (s : Store) : Store := settled s (op.run checksum s)

def Op.evaluates (planId : String) : Op → Bool
  | .evaluate id _ => id == planId
  | _ => false

/-! ## The flag of a plan -/

def Store.Dirty (s : Store) (planId : String) : Prop :=
  (s.reconcile.find? planId).any (·.dirty) = true

variable {checksum} {s t u : Store} {p : String}

theorem dirty_insert {k : String} (h : s.Dirty p) :
    ({ s with reconcile := s.reconcile.insertNew ⟨k, false⟩ } : Store).Dirty p := by
  unfold Store.Dirty at h ⊢
  dsimp only
  rw [Table.find?_insertNew]
  cases hr : s.reconcile.find? p with
  | none =>
    rw [hr] at h
    cases h
  | some r =>
    rw [hr] at h
    exact h

theorem dirty_markDirty (k : String) (h : s.Dirty p) : (s.markDirty k).Dirty p := by
  unfold Store.markDirty
  split
  · exact h
  · unfold Store.Dirty at h ⊢
    dsimp only
    rw [Table.find?_upsert]
    split
    · cases s.reconcile.find? _ <;> rfl
    · exact h

theorem markDirty_marks {k : String} {w : Work} (hw : s.works.find? k = some w) :
    (s.markDirty k).Dirty w.planId := by
  unfold Store.markDirty
  rw [hw]
  unfold Store.Dirty
  dsimp only
  rw [Table.find?_upsert, if_pos rfl]
  cases s.reconcile.find? _ <;> rfl

/-- A row of the plan that ends leaves it dirty, and a dirty plan stays dirty. -/
structure Marks (p : String) (s t : Store) : Prop where
  ends : ∀ k w v, s.works.find? k = some w → t.works.find? k = some v → w.planId = p →
    v.status.terminal = true → w.status.terminal = true ∨ t.Dirty p
  dirty : s.Dirty p → t.Dirty p

/-- No row ends. -/
theorem marks_of_rows (h : Rows (fun w v => v.status.terminal = true → w.status.terminal = true) s t)
    (hd : s.Dirty p → t.Dirty p) : Marks p s t := by
  refine ⟨fun k w v hw hv _ hterminal => Or.inl ?_, hd⟩
  obtain ⟨v', hv', hwv⟩ := h.forth hw
  rw [hv] at hv'
  cases hv'
  exact hwv hterminal

theorem marks_of_works (hw : t.works = s.works) (hd : s.Dirty p → t.Dirty p) : Marks p s t :=
  marks_of_rows (.of_eq (fun _ => id) hw) hd

theorem marks_setWork {k : String} {f : Work → Work} {hf}
    (h : ∀ w, (f w).status.terminal = true → w.status.terminal = true) :
    Marks p s (s.setWork k f hf) :=
  marks_of_rows (rows_setWork (fun w _ => h w) fun _ _ => id) id

/-- A method of a key that marks its plan. -/
theorem marks_of_dirty {k : String} (hframe : ∀ j, j ≠ k → t.works.find? j = s.works.find? j)
    (hdirty : ∀ w, s.works.find? k = some w → t.Dirty w.planId) (hd : s.Dirty p → t.Dirty p) :
    Marks p s t := by
  refine ⟨fun j w v hw hv hplan hterminal => ?_, hd⟩
  by_cases hj : j = k
  · subst hj
    exact Or.inr (hplan ▸ hdirty w hw)
  · rw [hframe j hj, hw] at hv
    cases hv
    exact Or.inl hterminal

theorem setWork_frame {k j : String} {f : Work → Work} (hf : ∀ w, (f w).key = w.key) (hj : j ≠ k) :
    (s.setWork k f hf).works.find? j = s.works.find? j := by
  rw [find?_setWork]
  cases hw : s.works.find? j with
  | none => rfl
  | some w =>
    rw [Option.map_some, if_neg]
    rintro rfl
    exact hj (Table.find?_eq_some.mp hw).2.symm

theorem waiting_terminal (w : Work) : w.waiting.terminal = false := by
  unfold Work.waiting
  split <;> rfl

theorem marks_claim (k : String) (now lease : Instant) (cursor : Option Nat) :
    Marks p s (s.claim k now lease cursor).1 := by
  unfold Store.claim
  split
  · exact marks_of_works rfl id
  split
  · exact marks_of_works rfl id
  · have hset : Marks p s (s.setWork k fun w =>
        { w with leaseUntil := now + lease, attempts := w.attempts + 1 }) :=
      marks_setWork fun _ => id
    dsimp only
    split
    · exact hset
    · exact ⟨hset.ends, hset.dirty⟩

theorem finish_frame {k j : String} (status : WorkStatus) (reason receipt : Option String)
    (now : Instant) (hj : j ≠ k) :
    (s.finish k status reason receipt now).works.find? j = s.works.find? j := by
  unfold Store.finish
  dsimp only
  rw [markDirty_works]
  refine (setWork_frame Work.exhaust_key hj).trans ((setWork_frame _ hj).trans ?_)
  split
  · exact setWork_frame _ hj
  · rfl

theorem marks_finish (k : String) (status : WorkStatus) (reason receipt : Option String)
    (now : Instant) : Marks p s (s.finish k status reason receipt now) := by
  refine marks_of_dirty (k := k) (fun j hj => finish_frame status reason receipt now hj) ?_ ?_
  · intro w hw
    have ht : Touches (fun _ => "") (· = k) s (s.finish k status reason receipt now) :=
      touches_finish s k status reason receipt now
    obtain ⟨v, hv, hgrows, -⟩ := ht.rows.forth hw
    unfold Store.finish at hv ⊢
    dsimp only at hv ⊢
    rw [markDirty_works] at hv
    exact hgrows.planId ▸ markDirty_marks hv
  · intro hd
    unfold Store.finish
    dsimp only
    refine dirty_markDirty k ?_
    split <;> exact hd

theorem marks_acknowledgeEmpty (k : String) : Marks p s (s.acknowledgeEmpty k) := by
  unfold Store.acknowledgeEmpty
  split
  · exact marks_of_works rfl id
  · rename_i row _
    dsimp only
    refine marks_of_dirty (k := k) ?_ ?_ fun hd => dirty_markDirty k hd
    · intro j hj
      rw [markDirty_works]
      refine setWork_frame (s := s) ?_ hj
      exact fun _ => rfl
    · intro w hw
      refine markDirty_marks (w := { w with
        status := if row.exhausted then .manual else .pending, reason := some row.reason,
        nextAt := row.nextAt, leaseUntil := 0 }) ?_
      change (s.setWork k _).works.find? k = _
      rw [find?_setWork, hw, Option.map_some, if_pos (Table.find?_eq_some.mp hw).2]

theorem marks_evaluate {q : String} (summary : Summary) (hne : q ≠ p) :
    Marks p s (s.evaluate q summary) := by
  have hd : s.Dirty p → ({ s with
      plans := s.plans.modify q fun r =>
        { r with complete := summary.complete, late := summary.isLate }
      reconcile := s.reconcile.upsert ⟨q, false⟩ fun r => { r with dirty := false } } :
      Store).Dirty p := by
    intro h
    unfold Store.Dirty at h ⊢
    dsimp only
    rw [Table.find?_upsert, if_neg hne]
    exact h
  unfold Store.evaluate
  dsimp only
  split
  · refine ⟨fun k w v hw hv hplan hterminal => Or.inl ?_, hd⟩
    dsimp only at hv
    rw [Table.find?_update, hw, Option.map_some, if_neg] at hv
    · cases hv
      exact hterminal
    · rw [hplan, beq_iff_eq]
      exact hne.symm
  · exact marks_of_works rfl hd

theorem marks_stageEmptyResponse {k reason : String} {now delay : Instant} {exhausted : Bool}
    (h : s.stageEmptyResponse k now delay exhausted reason = .ok t) : Marks p s t := by
  obtain ⟨_, _, h⟩ := ok_bind h
  cases h
  refine marks_of_rows (rows_setWork (fun w _ hterminal => ?_) fun _ _ => id) id
  unfold Work.stage at hterminal
  split at hterminal
  · cases hterminal
  · exact hterminal

theorem marks_applyMemberRepair {k repairId : String} {b : Bool}
    (h : s.applyMemberRepair k repairId = .ok (t, b)) : Marks p s t := by
  unfold Store.applyMemberRepair at h
  split at h
  · cases h
    exact marks_of_works rfl id
  · obtain ⟨w, _, h⟩ := ok_bind h
    split at h
    · cases h
      exact marks_of_works rfl id
    · obtain ⟨_, _, h⟩ := ok_bind h
      cases h
      exact marks_of_rows (rows_setWork (fun w _ hterminal => absurd hterminal Bool.false_ne_true) fun _ _ => id) id

/-! ## A new plan -/

theorem insertMember_kept (plan : Plan) (provider : String) (entry : Part × String) {k : String}
    {w : Work} (hw : s.works.find? k = some w) :
    (s.insertMember plan provider entry).works.find? k = some w := by
  unfold Store.insertMember
  dsimp only
  rw [Table.find?_insertNew, hw]
  rfl

theorem recordPlan_spec (plan : Plan) (provider : String) :
    (∀ k w, s.works.find? k = some w →
      (s.recordPlan plan provider).works.find? k = some w) ∧
    (∀ r ∈ s.receipts, r ∈ (s.recordPlan plan provider).receipts) ∧
    (s.Dirty p → (s.recordPlan plan provider).Dirty p) := by
  unfold Store.recordPlan
  dsimp only
  refine List.foldlRecOn plan.entries (fun s entry => s.insertMember plan provider entry)
    (motive := fun t : Store => (∀ k w, s.works.find? k = some w → t.works.find? k = some w) ∧
      (∀ r ∈ s.receipts, r ∈ t.receipts) ∧ (s.Dirty p → t.Dirty p))
    ⟨fun _ _ h => h, fun _ h => h, fun hd => dirty_insert hd⟩ ?_
  rintro t ⟨hworks, hreceipts, hdirty⟩ entry _
  exact ⟨fun k w hw => insertMember_kept plan provider entry (hworks k w hw), hreceipts, hdirty⟩

/-! ## One method -/

/-- Rows and receipts stay, a stored digest is that of its body, and a plan that is not complete
stays so. -/
structure Keeps (checksum : Bytes → String) (s t : Store) : Prop where
  rows : ∀ k w, s.works.find? k = some w → ∃ v, t.works.find? k = some v ∧ w.Grows checksum v
  receipts : ∀ r ∈ s.receipts, r ∈ t.receipts
  isSealed : (∀ w ∈ s.works, w.Sealed checksum) → ∀ w ∈ t.works, w.Sealed checksum

theorem Keeps.refl (s : Store) : Keeps checksum s s :=
  ⟨fun _ w hw => ⟨w, hw, .refl w⟩, fun _ h => h, id⟩

theorem Keeps.trans (h : Keeps checksum s t) (h' : Keeps checksum t u) : Keeps checksum s u := by
  refine ⟨fun k w hw => ?_, fun r hr => h'.receipts r (h.receipts r hr),
    fun hs => h'.isSealed (h.isSealed hs)⟩
  obtain ⟨v, hv, hwv⟩ := h.rows k w hw
  obtain ⟨x, hx, hvx⟩ := h'.rows k v hv
  exact ⟨x, hx, hwv.trans hvx⟩

theorem Touches.keeps {T : String → Prop} (h : Touches checksum T s t) : Keeps checksum s t := by
  refine ⟨fun k w hw => ?_, h.receipts, fun hs v hv => ?_⟩
  · obtain ⟨v, hv, hgrows, -⟩ := h.rows.forth hw
    exact ⟨v, hv, hgrows⟩
  · obtain ⟨w, hw, hgrows, -⟩ := h.rows.back (Table.find?_self hv)
    exact hgrows.digest (hs w (Table.find?_eq_some.mp hw).1)

theorem keeps_recordPlan (plan : Plan) (provider : String) :
    Keeps checksum s (s.recordPlan plan provider) := by
  obtain ⟨hrows, hreceipts, -⟩ := recordPlan_spec (s := s) (p := "") plan provider
  refine ⟨fun k w hw => ⟨w, hrows k w hw, .refl w⟩, hreceipts, fun hs => ?_⟩
  unfold Store.recordPlan
  dsimp only
  refine List.foldlRecOn plan.entries (fun s entry => s.insertMember plan provider entry)
    (motive := fun t : Store => ∀ w ∈ t.works, w.Sealed checksum) hs fun t ht entry _ w hw => ?_
  rcases Table.mem_insertNew.mp hw with hw | ⟨rfl, _⟩
  · exact ht w hw
  · exact fun b hb => nomatch hb

theorem run_keeps {op : Op} (h : op.run checksum s = .ok t) : Keeps checksum s t := by
  cases op with
  | recordPlan plan provider =>
    cases h
    exact keeps_recordPlan plan provider
  | evaluate planId summary =>
    cases h
    exact (touches_evaluate (T := fun _ => False) s planId summary).keeps
  | claim key now lease nextCursor =>
    cases h
    exact (touches_claim rfl).keeps
  | prepare key body => exact (touches_prepare h).1.keeps
  | saveSequenceReceipt key idempotencyKey runId =>
    exact (touches_saveReceipt (T := fun _ => False) h).1.keeps
  | deferWait key now reason delaySeconds => exact (touches_deferWait h).keeps
  | startOutage key now =>
    cases h
    obtain ⟨hworks, hreceipts⟩ := startOutage_works s key now
    exact (Touches.of_works (T := fun _ => False) hworks hreceipts).keeps
  | clearProviderOutage planId =>
    cases h
    exact (touches_clearProviderOutage (T := fun _ => False) s planId).keeps
  | recordNoDataTrip planId until_ =>
    cases h
    exact (touches_recordNoDataTrip (T := fun _ => False) s planId until_).keeps
  | clearNoDataTrips planId =>
    cases h
    exact (touches_clearNoDataTrips (T := fun _ => False) s planId).keeps
  | stageSourceError key =>
    cases h
    exact (touches_stageSourceError s key).keeps
  | stageEmptyResponse key now delay exhausted reason => exact (touches_stageEmptyResponse h).keeps
  | acknowledgeEmpty key =>
    cases h
    exact (touches_acknowledgeEmpty s key).keeps
  | applyMemberRepair key repairId =>
    obtain ⟨b, hrun⟩ := map_fst_ok h
    exact (touches_applyMemberRepair hrun).keeps
  | finish key status reason receipt now =>
    cases h
    exact (touches_finish s key status reason receipt now).keeps

theorem run_marks {op : Op} (ho : op.evaluates p = false) (h : op.run checksum s = .ok t) :
    Marks p s t := by
  cases op with
  | recordPlan plan provider =>
    cases h
    obtain ⟨hrows, -, hdirty⟩ := recordPlan_spec (s := s) (p := p) plan provider
    refine ⟨fun k w v hw hv _ hterminal => Or.inl ?_, hdirty⟩
    rw [hrows k w hw] at hv
    cases hv
    exact hterminal
  | evaluate planId summary =>
    cases h
    exact marks_evaluate summary (bne_iff_ne.mp (by simpa [Op.evaluates, bne] using ho))
  | claim key now lease nextCursor =>
    cases h
    exact marks_claim key now lease nextCursor
  | prepare key body =>
    obtain ⟨_, _, h⟩ := ok_bind h
    cases h
    exact marks_setWork fun _ hterminal => absurd hterminal Bool.false_ne_true
  | saveSequenceReceipt key idempotencyKey runId =>
    obtain ⟨_, _, h⟩ := ok_bind h
    cases h
    exact marks_of_works rfl id
  | deferWait key now reason delaySeconds =>
    obtain ⟨_, _, h⟩ := ok_bind h
    cases h
    exact marks_setWork fun w hterminal => nomatch (waiting_terminal w).symm.trans hterminal
  | startOutage key now =>
    cases h
    refine marks_of_works (startOutage_works s key now).1 ?_
    unfold Store.startOutage
    split <;> exact id
  | clearProviderOutage planId =>
    cases h
    exact marks_of_works rfl id
  | recordNoDataTrip planId until_ =>
    cases h
    exact marks_of_rows (rows_update (fun _ _ => id) fun _ => id) id
  | clearNoDataTrips planId =>
    cases h
    exact marks_of_works rfl id
  | stageSourceError key =>
    cases h
    have hset : Marks p s (s.setWork key fun w =>
        { w with
          status := w.waiting, reason := some "source_error_pending", leaseUntil := 0,
          nextAt := 0 }) :=
      marks_setWork fun w hterminal => nomatch (waiting_terminal w).symm.trans hterminal
    refine ⟨fun k w v hw hv hplan hterminal => ?_, fun hd => dirty_markDirty key (hset.dirty hd)⟩
    unfold Store.stageSourceError at hv
    rw [markDirty_works] at hv
    exact (hset.ends k w v hw hv hplan hterminal).imp_right (dirty_markDirty key)
  | stageEmptyResponse key now delay exhausted reason => exact marks_stageEmptyResponse h
  | acknowledgeEmpty key =>
    cases h
    exact marks_acknowledgeEmpty key
  | applyMemberRepair key repairId =>
    obtain ⟨b, hrun⟩ := map_fst_ok h
    exact marks_applyMemberRepair hrun
  | finish key status reason receipt now =>
    cases h
    exact marks_finish key status reason receipt now

/-- The saved plan is there and not complete. -/
def Store.Pending (s : Store) (planId provider : String) : Prop :=
  ∃ plan, s.plans.find? planId = some plan ∧ plan.provider = provider ∧ plan.complete = false

theorem pending_of_plans {provider : String} (hp : s.Pending p provider) (h : t.plans = s.plans) :
    t.Pending p provider := by
  unfold Store.Pending
  rw [h]
  exact hp

theorem pending_recordPlan {plan : Plan} {provider owner : String} (hp : s.Pending p owner) :
    (s.recordPlan plan provider).Pending p owner := by
  obtain ⟨saved, hsaved, howner, hopen⟩ := hp
  unfold Store.recordPlan
  dsimp only
  refine List.foldlRecOn plan.entries (fun s entry => s.insertMember plan provider entry)
    (motive := fun t : Store => t.Pending p owner) ⟨saved, ?_, howner, hopen⟩ fun t ht _ _ => ht
  dsimp only
  rw [Table.find?_insertNew, hsaved]
  rfl

theorem run_pending {op : Op} {provider : String} (ho : op.evaluates p = false)
    (h : op.run checksum s = .ok t) (hp : s.Pending p provider) : t.Pending p provider := by
  cases op with
  | recordPlan plan owner =>
    cases h
    exact pending_recordPlan hp
  | evaluate planId summary =>
    cases h
    have hne : planId ≠ p := fun hid => nomatch (beq_iff_eq.mpr hid).symm.trans ho
    obtain ⟨plan, hplan, hprovider⟩ := hp
    refine ⟨plan, ?_, hprovider⟩
    unfold Store.evaluate
    dsimp only
    split
    all_goals
      dsimp only
      rw [Table.find?_modify, hplan, Option.map_some, if_neg (Ne.symm hne)]
  | claim key now lease nextCursor =>
    cases h
    refine pending_of_plans hp ?_
    unfold Store.claim
    split
    · rfl
    · split
      · rfl
      · dsimp only
        split <;> rfl
  | prepare key body | saveSequenceReceipt key idempotencyKey runId
  | deferWait key now reason delaySeconds | stageEmptyResponse key now delay exhausted reason =>
    obtain ⟨_, _, h⟩ := ok_bind h
    cases h
    exact hp
  | startOutage key now =>
    cases h
    refine pending_of_plans hp ?_
    unfold Store.startOutage
    split <;> rfl
  | clearProviderOutage planId | recordNoDataTrip planId until_ | clearNoDataTrips planId =>
    cases h
    exact hp
  | stageSourceError key =>
    cases h
    refine pending_of_plans hp ?_
    unfold Store.stageSourceError Store.markDirty
    split <;> rfl
  | acknowledgeEmpty key =>
    cases h
    refine pending_of_plans hp ?_
    unfold Store.acknowledgeEmpty Store.markDirty
    split
    · rfl
    · dsimp only
      split <;> rfl
  | applyMemberRepair key repairId =>
    obtain ⟨b, h⟩ := map_fst_ok h
    unfold Store.applyMemberRepair at h
    split at h
    · cases h
      exact hp
    · obtain ⟨w, _, h⟩ := ok_bind h
      split at h
      · cases h
        exact hp
      · obtain ⟨_, _, h⟩ := ok_bind h
        cases h
        exact hp
  | finish key status reason receipt now =>
    cases h
    refine pending_of_plans hp ?_
    unfold Store.finish Store.markDirty
    dsimp only
    split <;> split <;> rfl

/-! ## Any run -/

def Runs (checksum : Bytes → String) : Store → Store → Prop :=
  StepsIf (step checksum) fun _ _ => True

/-- A run in which the plan is not evaluated. -/
def Unevaluated (checksum : Bytes → String) (planId : String) : Store → Store → Prop :=
  StepsIf (step checksum) fun _ op => op.evaluates planId = false

theorem step_keeps (op : Op) (s : Store) : Keeps checksum s (step checksum op s) := by
  unfold step
  cases h : op.run checksum s with
  | error e => exact .refl s
  | ok t => exact run_keeps h

theorem keeps_of_run (h : Runs checksum s t) : Keeps checksum s t :=
  StepsIf.rel (I := fun _ => True) Keeps.refl (fun _ _ _ => .trans) (fun _ _ _ _ => trivial)
    (fun s op _ _ => step_keeps op s) h trivial

theorem sequenceReceipt_kept (h : Keeps checksum s t) {k i run : String}
    (hs : s.sequenceReceipt k i = some run) : t.sequenceReceipt k i = some run := by
  obtain ⟨r, hr, rfl⟩ := Option.map_eq_some_iff.mp hs
  obtain ⟨hmem, hid⟩ := Table.find?_eq_some.mp hr
  unfold Store.sequenceReceipt
  rw [← hid, Table.find?_self (h.receipts r hmem)]
  rfl

theorem prepared_of_sealed (h : ∀ w ∈ s.works, w.Sealed checksum) (k : String) :
    s.prepared checksum k = .ok ((s.works.find? k).bind (·.body)) := by
  unfold Store.prepared
  cases hw : s.works.find? k with
  | none => rfl
  | some w =>
    cases hb : w.body with
    | none =>
      dsimp only
      rw [Option.bind_some, hb]
      rfl
    | some b =>
      dsimp only
      rw [Option.bind_some, hb, h w (Table.find?_eq_some.mp hw).1 b hb]
      simp only [beq_self_eq_true]
      rfl

/-- **The members over any run.** After any methods of any processes every prepared body is read
with its digest; a member that is there keeps its plan and provider, its body once it is prepared,
and the receipt of each of its requests once it is saved. -/
theorem members_of_runs (hs : Runs checksum .empty s) (ht : Runs checksum s t) :
    (∀ k, t.prepared checksum k = .ok ((t.works.find? k).bind (·.body))) ∧
    (∀ k w, s.works.find? k = some w → ∃ v, t.works.find? k = some v ∧ v.provider = w.provider ∧
      v.planId = w.planId ∧ v.memberKey = w.memberKey ∧
      ∀ b, w.body = some b → t.prepared checksum k = .ok (some b)) ∧
    ∀ k i run, s.sequenceReceipt k i = some run → t.sequenceReceipt k i = some run := by
  have hkeeps := keeps_of_run ht
  have hempty : ∀ w ∈ Store.empty.works, w.Sealed checksum :=
    fun w hw => absurd hw (Table.not_mem_empty w)
  have hprepared := prepared_of_sealed (hkeeps.isSealed ((keeps_of_run hs).isSealed hempty))
  refine ⟨hprepared, fun k w hw => ?_, fun k i run => sequenceReceipt_kept hkeeps⟩
  obtain ⟨v, hv, hgrows⟩ := hkeeps.rows k w hw
  refine ⟨v, hv, congrArg (·.2.1) hgrows.identity, hgrows.planId,
    congrArg (·.2.2.2) hgrows.identity, fun b hb => ?_⟩
  rw [hprepared, hv, Option.bind_some, hgrows.body b hb]

/-- A plan with one part of two members. -/
def pilotPlan : Plan :=
  ⟨"plan", "tw_equity_eod", "2026-09-21", [⟨"item", ["2330", "2317"]⟩], [1, 2]⟩

/-- `hashlib.sha256(bytes([1, 2, 3])).hexdigest()`, and nothing of other bodies. -/
def pilotChecksum (body : Bytes) : String :=
  if body = [1, 2, 3] then "039058c6f2c0cb492c533b0a4d14ef77cc0f78abccced5287d84a1a2011cfb81" else ""

/-- A member is prepared and the receipt of its request saved. -/
def pilotPrepared : List Op :=
  [.recordPlan pilotPlan "finlab", .claim "item:2330" 5 600 (some 1),
    .prepare "item:2330" [1, 2, 3], .saveSequenceReceipt "item:2330" "request" "run"]

/-- Another member fails, and the first one ends. -/
def pilotEnded : List Op :=
  [.claim "item:2317" 6 600 none, .stageSourceError "item:2317", .prepare "item:2330" [4],
    .finish "item:2330" .complete none (some "run") 7]

def pilotStore : Store := runAll (step pilotChecksum) pilotPrepared .empty

def pilotEnd : Store := runAll (step pilotChecksum) pilotEnded pilotStore

theorem pilot_runs :
    Runs pilotChecksum .empty pilotStore ∧ Runs pilotChecksum pilotStore pilotEnd :=
  ⟨runAll_steps _ _ (admitted_of_forall (fun _ _ => trivial) _ _),
    runAll_steps _ _ (admitted_of_forall (fun _ _ => trivial) _ _)⟩

theorem members_of_runs_pilot :
    pilotEnd.prepared pilotChecksum "item:2330" = .ok (some [1, 2, 3]) ∧
    pilotEnd.sequenceReceipt "item:2330" "request" = some "run" := by
  obtain ⟨-, hrows, hreceipts⟩ := members_of_runs pilot_runs.1 pilot_runs.2
  have hbody : (pilotStore.works.find? "item:2330").map (·.body) = some (some [1, 2, 3]) := by
    decide +kernel
  obtain ⟨w, hw, hb⟩ := Option.map_eq_some_iff.mp hbody
  obtain ⟨-, -, -, -, -, hprepared⟩ := hrows "item:2330" w hw
  exact ⟨hprepared _ hb, hreceipts _ _ _ (by decide +kernel)⟩

/-- What a run without an evaluation of the plan does to it. -/
structure Trails (checksum : Bytes → String) (planId : String) (s t : Store) : Prop where
  keeps : Keeps checksum s t
  marks : Marks planId s t
  pending : ∀ provider, s.Pending planId provider → t.Pending planId provider

theorem Trails.refl (s : Store) : Trails checksum p s s :=
  ⟨.refl s, marks_of_works rfl id, fun _ => id⟩

theorem Trails.trans (h : Trails checksum p s t) (h' : Trails checksum p t u) :
    Trails checksum p s u := by
  refine ⟨h.keeps.trans h'.keeps, ⟨fun k w x hw hx hplan hterminal => ?_,
    fun hd => h'.marks.dirty (h.marks.dirty hd)⟩, fun q hq => h'.pending q (h.pending q hq)⟩
  obtain ⟨v, hv, hgrows⟩ := h.keeps.rows k w hw
  -- the row ended in the second part of the run, or it had ended before
  rcases h'.marks.ends k v x hv hx (hgrows.planId.trans hplan) hterminal with hv' | hd
  · exact (h.marks.ends k w v hw hv hplan hv').imp_right h'.marks.dirty
  · exact Or.inr hd

theorem trails_of_run (h : Unevaluated checksum p s t) : Trails checksum p s t := by
  refine StepsIf.rel (I := fun _ => True) Trails.refl (fun _ _ _ => .trans)
    (fun _ _ _ _ => trivial) (fun s op _ ho => ?_) h trivial
  unfold step
  cases hrun : op.run checksum s with
  | error e => exact .refl s
  | ok t => exact ⟨run_keeps hrun, run_marks ho hrun, fun q => run_pending ho hrun⟩

/-- **No evaluation is lost.** As long as a plan is not evaluated, a member of it that ends leaves
the plan among those that are drained, whatever other methods run in between. -/
theorem drained_of_runs {k provider : String} {w v : Work} (h : Unevaluated checksum p s t)
    (hp : s.Pending p provider) (hw : s.works.find? k = some w) (hplan : w.planId = p)
    (hopen : w.status.terminal = false) (hv : t.works.find? k = some v)
    (hended : v.status.terminal = true) (now : Instant) :
    p ∈ t.dirtyPlans provider ∧ ∃ entry ∈ t.drainPlans provider now, entry.1.planId = p := by
  obtain ⟨-, hmarks, hpending⟩ := trails_of_run h
  obtain ⟨plan, hfind, hprovider, hcomplete⟩ := hpending provider hp
  obtain ⟨hmem, rfl⟩ := Table.find?_eq_some.mp hfind
  have hd : t.Dirty plan.planId := by
    rcases hmarks.ends k w v hw hv hplan hended with hw' | hd
    · exact nomatch hopen.symm.trans hw'
    · exact hd
  have hdirty : plan.planId ∈ t.dirtyPlans provider := by
    refine List.mem_map.mpr ⟨plan, List.mem_filter.mpr ⟨hmem, ?_⟩, rfl⟩
    unfold Store.Dirty at hd
    rw [hd, hcomplete, hprovider, beq_self_eq_true]
    rfl
  refine ⟨hdirty, (plan, _), List.mem_map.mpr ⟨plan, List.mem_filter.mpr ⟨hmem, ?_⟩, rfl⟩, rfl⟩
  rw [hcomplete, hprovider, beq_self_eq_true, List.contains_iff_mem.mpr hdirty, Bool.or_true]
  rfl

theorem drained_of_runs_pilot :
    "plan" ∈ pilotEnd.dirtyPlans "finlab" ∧
    ∃ entry ∈ pilotEnd.drainPlans "finlab" 8, entry.1.planId = "plan" := by
  have hrun : Unevaluated pilotChecksum "plan" pilotStore pilotEnd :=
    runAll_steps pilotEnded pilotStore (by decide +kernel)
  have hplan : (pilotStore.plans.find? "plan").map (fun plan => (plan.provider, plan.complete)) =
      some ("finlab", false) := by decide +kernel
  have hopen : (pilotStore.works.find? "item:2330").map (fun w => (w.planId, w.status)) =
      some ("plan", .prepared) := by decide +kernel
  have hended : (pilotEnd.works.find? "item:2330").map (·.status) = some .complete := by
    decide +kernel
  obtain ⟨plan, hfind, hsaved⟩ := Option.map_eq_some_iff.mp hplan
  obtain ⟨w, hw, hrow⟩ := Option.map_eq_some_iff.mp hopen
  obtain ⟨v, hv, hstatus⟩ := Option.map_eq_some_iff.mp hended
  obtain ⟨hprovider, hcomplete⟩ := Prod.mk.inj hsaved
  obtain ⟨hid, hwaiting⟩ := Prod.mk.inj hrow
  exact drained_of_runs hrun ⟨plan, hfind, hprovider, hcomplete⟩ hw hid (by rw [hwaiting]; rfl) hv
    (by rw [hstatus]; rfl) 8

end FinDB.Members
