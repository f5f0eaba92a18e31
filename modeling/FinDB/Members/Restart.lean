import FinDB.Members.Custody

/-! # Rounds that may die anywhere

Each step of a round keeps what the calls and the rows say of each other, so whatever a process
leaves behind is where the next round can go on. -/
namespace FinDB.Members
open FinDB.Lib

/-- Facts that neither a method nor a call takes away. -/
structure Steady (W : World) (φ : Disk → Prop) : Prop where
  store : ∀ (s t : Store) log (T : String → Prop), Touches W.checksum T s t → φ ⟨s, log⟩ → φ ⟨t, log⟩
  call : ∀ s log e, φ ⟨s, log⟩ → φ ⟨s, log ++ [e]⟩

variable {W : World} {d₀ : Disk} {S φ : Disk → Prop} {key p : String}

theorem steady_true : Steady W fun _ => True := ⟨fun _ _ _ _ _ _ => trivial, fun _ _ _ _ => trivial⟩

theorem steady_bodied (k : String) (body : Bytes) : Steady W (Bodied k body) := by
  refine ⟨fun s t log T ht => ?_, fun _ _ _ h => h⟩
  rintro ⟨w, hw, hb⟩
  obtain ⟨v, hv, hgrows, -⟩ := ht.rows.forth hw
  exact ⟨v, hv, hgrows.body body hb⟩

theorem steady_said (k : String) : Steady W (Said d₀ · k) :=
  ⟨fun _ _ _ _ _ h => h, fun _ log e h => h.mono (outcomes_snoc_le log e k)⟩

theorem steady_saidPlan (p : String) : Steady W (SaidPlan d₀ · p) :=
  ⟨fun _ _ _ _ _ h => h, fun _ log e h => saidPlan_mono h (outcomes_snoc_le log e)⟩

theorem Steady.and {R : Disk → Prop} (h : Steady W φ) (h' : Steady W R) :
    Steady W fun d => φ d ∧ R d :=
  ⟨fun s t log T ht hd => ⟨h.store s t log T ht hd.1, h'.store s t log T ht hd.2⟩,
    fun s log e hd => ⟨h.call s log e hd.1, h'.call s log e hd.2⟩⟩

theorem steady_forall {ι : Sort _} {φ : ι → Disk → Prop} (h : ∀ i, Steady W (φ i)) :
    Steady W fun d => ∀ i, φ i d :=
  ⟨fun s t log T ht hd i => (h i).store s t log T ht (hd i), fun s log e hd i => (h i).call s log e (hd i)⟩

/-- The invariant, with what is known of the failures. -/
def Under (W : World) (d₀ : Disk) (S : Disk → Prop) (d : Disk) : Prop := Kept W d₀ d ∧ S d

/-- The failure of the member was reported. -/
def Reported (W : World) (d₀ : Disk) (S : Disk → Prop) (key : String) : Prop :=
  ∀ d, Under W d₀ S d → Said d₀ d key

/-! ## The steps -/

theorem guarded_ask {α : Type} (f : Answers → Nat → α) :
    Guarded (Under W d₀ S) φ (ask f) fun _ => φ := Guarded.think fun _ _ _ h => h

theorem guarded_askOrRaise {α : Type} (f : Answers → Nat → Except Failure α) :
    Guarded (Under W d₀ S) φ (askOrRaise f) fun _ => φ :=
  (guarded_ask f).bind fun _ => Guarded.lift fun _ _ _ h _ => h

theorem guarded_remember (f : Memory → Memory) :
    Guarded (Under W d₀ S) φ (remember f) fun _ => φ := Guarded.think fun _ _ _ h => h

theorem guarded_inMemory {α : Type} (f : Memory → α) :
    Guarded (Under W d₀ S) φ (inMemory f) fun _ => φ := Guarded.think fun _ _ _ h => h

theorem guarded_setReason {r : Round} (reason : String) :
    Guarded (Under W d₀ S) φ (setReason r reason) fun _ => φ := guarded_remember _

/-- A transaction that commits keeps the invariant. -/
theorem guarded_transaction {α : Type} {f : Store → Except Err (Store × α)} {Q : α → Disk → Prop}
    (h : ∀ d t a, Under W d₀ S d → φ d → f d.store = .ok (t, a) →
      Under W d₀ S ⟨t, d.log⟩ ∧ Q a ⟨t, d.log⟩) :
    Guarded (Under W d₀ S) φ (transaction f) Q := by
  refine Guarded.transact fun d d' a hd hf hrun => ?_
  cases hfd : f d.store with
  | error e =>
    rw [hfd] at hrun
    cases hrun
  | ok r =>
    rw [hfd] at hrun
    cases hrun
    exact h d r.1 r.2 hd hf hfd

theorem guarded_transaction_ {f : Store → Except Err Store} {Q : Disk → Prop}
    (h : ∀ d t, Under W d₀ S d → φ d → f d.store = .ok t → Under W d₀ S ⟨t, d.log⟩ ∧ Q ⟨t, d.log⟩) :
    Guarded (Under W d₀ S) φ (transaction_ f) fun _ => Q := by
  refine guarded_transaction fun d t _ hd hf hrun => ?_
  cases hfd : f d.store with
  | error e =>
    rw [hfd] at hrun
    cases hrun
  | ok u =>
    rw [hfd] at hrun
    cases hrun
    exact h d _ hd hf hfd

/-- A method of a member whose failure was reported. -/
theorem Under.touches {d : Disk} {t : Store} (hd : Under W d₀ S d) (hS : Steady W S)
    (hk : Reported W d₀ S key) (ht : Touches W.checksum (· = key) d.store t) :
    Under W d₀ S ⟨t, d.log⟩ := by
  refine ⟨hd.1.touches ht ?_, hS.store _ _ _ _ ht hd.2⟩
  rintro j rfl
  exact hk d hd

theorem guarded_commit {f : Store → Store} (hS : Steady W S) (hφ : Steady W φ)
    (hk : Reported W d₀ S key) (h : ∀ s, Touches W.checksum (· = key) s (f s)) :
    Guarded (Under W d₀ S) φ (commit f) fun _ => φ :=
  Guarded.write fun d hd hf => ⟨hd.touches hS hk (h d.store), hφ.store _ _ _ _ (h d.store) hf⟩

/-- A method that changes no reason. -/
theorem guarded_aside {f : Store → Store} (hS : Steady W S) (hφ : Steady W φ)
    (h : ∀ s, Touches W.checksum (fun _ => False) s (f s)) :
    Guarded (Under W d₀ S) φ (commit f) fun _ => φ :=
  Guarded.write fun d hd hf => ⟨⟨hd.1.aside (h d.store), hS.store _ _ _ _ (h d.store) hd.2⟩,
    hφ.store _ _ _ _ (h d.store) hf⟩

theorem guarded_deferWait (hS : Steady W S) (hk : Reported W d₀ S key) (reason : String)
    (delay : Nat) : Guarded (Under W d₀ S) φ (deferWait key reason delay) fun _ _ => True :=
  ((guarded_ask _).pre (R := fun _ => True) fun _ _ _ => trivial).bind fun _ =>
    guarded_transaction_ fun _ _ hd _ h => ⟨hd.touches hS hk (touches_deferWait h), trivial⟩

/-- Reading a body: there is none, or the row has it. -/
theorem guarded_preparedOf (key : String) :
    Guarded (Under W d₀ S) φ (preparedOf W key) fun body d =>
      φ d ∧ (body = none → Unbodied key d) ∧ ∀ b, body = some b → Bodied key b d := by
  refine Guarded.readDisk fun d _ _ => Guarded.lift fun body d' _ hd hbody => ?_
  obtain ⟨rfl, hφ⟩ := hd
  refine ⟨hφ, ?_⟩
  unfold Store.prepared at hbody
  unfold Unbodied Bodied
  cases hw : d'.store.works.find? key with
  | none =>
    rw [hw] at hbody
    cases hbody
    exact ⟨fun _ w h => (nomatch h), fun b h => (nomatch h)⟩
  | some w =>
    rw [hw] at hbody
    cases hb : w.body with
    | none =>
      simp only [hb] at hbody
      cases hbody
      refine ⟨fun _ v hv => ?_, fun b h => (nomatch h)⟩
      cases hv
      exact hb
    | some b =>
      simp only [hb] at hbody
      obtain ⟨_, -, hbody⟩ := ok_bind hbody
      cases hbody
      refine ⟨fun h => (nomatch h), fun b' h => ?_⟩
      cases h
      exact ⟨w, rfl, hb⟩

theorem guarded_outcome (hS : Steady W S) (hφ : Steady W φ) (key reason : String) :
    Guarded (Under W d₀ S) φ (sourceOutcome key reason) fun _ d => φ d ∧ Said d₀ d key := by
  refine Guarded.bind (Q := fun _ d => φ d ∧ Said d₀ d key) (Guarded.write fun d hd hf => ?_)
    fun _ => guarded_askOrRaise _
  obtain ⟨hkept, hsaid⟩ := hd.1.outcome key reason
  exact ⟨⟨hkept, hS.call _ _ _ hd.2⟩, hφ.call _ _ _ hf, hsaid⟩

theorem guarded_finish (hS : Steady W S) (hφ : Steady W φ) (hk : Reported W d₀ S key)
    (status : WorkStatus) (reason receipt : Option String) (now : Instant) :
    Guarded (Under W d₀ S) φ (commit fun s => s.finish key status reason receipt now) fun _ => φ :=
  guarded_commit hS hφ hk fun s => touches_finish s key status reason receipt now

theorem guarded_finishWaiting (hS : Steady W S) (hk : Reported W d₀ S key) (reason : String) :
    Guarded (Under W d₀ S) φ (finishWaiting W key reason) fun _ _ => True :=
  (guarded_preparedOf key).bind fun _ => (guarded_ask _).bind fun _ =>
    (guarded_finish hS steady_true hk _ _ _ _).pre fun _ _ _ => trivial

theorem guarded_finishManual (hS : Steady W S) (hk : Reported W d₀ S key) (reason : String) :
    Guarded (Under W d₀ S) φ (finishManual key reason) fun _ _ => True :=
  (guarded_finish hS steady_true hk _ _ _ _).pre fun _ _ _ => trivial

/-- What is known of the failures from some step on. -/
theorem guarded_since {α : Type} {R : Disk → Prop} {x : Run α} {Q : α → Disk → Prop}
    (hR : ∀ d, Under W d₀ S d → φ d → R d)
    (h : Guarded (Under W d₀ fun d => S d ∧ R d) φ x Q) :
    Guarded (Under W d₀ S) φ x fun a d => R d ∧ Q a d := by
  have heq : (Under W d₀ fun d => S d ∧ R d) = fun d => Under W d₀ S d ∧ R d :=
    funext fun d => propext and_assoc.symm
  rw [heq] at h
  exact (Guarded.since h).pre fun d hd hφ => ⟨hR d hd hφ, hφ⟩

theorem reported_and {R : Disk → Prop} (h : Reported W d₀ S key) :
    Reported W d₀ (fun d => S d ∧ R d) key := fun d hd => h d ⟨hd.1, hd.2.1⟩

theorem reported_said : Reported W d₀ (fun d => S d ∧ Said d₀ d key) key := fun _ hd => hd.2.2

/-- A member of a plan whose failures were reported. -/
theorem reported_of_plan {entry : Part × String} (he : entry ∈ (W.plans p).entries) :
    Reported W d₀ (SaidPlan d₀ · p) (workKey entry) := fun _ hd => hd.1.said hd.2 he

theorem guarded_reportSourceError (hS : Steady W S) (key : String) :
    Guarded (Under W d₀ S) φ (reportSourceError W key) fun _ d => Said d₀ d key := by
  refine Guarded.readDisk fun d _ _ => ?_
  have hsaid : Steady W fun d' => S d' ∧ Said d₀ d' key := hS.and (steady_said key)
  refine Guarded.bind (Q := fun _ d' => True ∧ Said d₀ d' key)
    ((guarded_outcome hS steady_true _ _).pre fun _ _ _ => trivial) fun _ => ?_
  refine Guarded.post (guarded_since (Q := fun _ _ => True) (fun _ _ h => h.2) ?_) fun _ _ _ h => h.1
  refine Guarded.pre (R := fun _ => True) ?_ fun _ _ _ => trivial
  split
  · exact guarded_commit hsaid steady_true reported_said fun s => touches_acknowledgeEmpty s key
  · exact guarded_finishWaiting hsaid reported_said _

theorem guarded_priceBasisManual (hS : Steady W S) (hk : Reported W d₀ S key) :
    Guarded (Under W d₀ S) φ (priceBasisManual key) fun _ _ => True :=
  (guarded_outcome hS steady_true _ _).pre (fun _ _ _ => trivial) |>.bind fun _ =>
    guarded_finishManual hS hk _

/-! ## A delivery -/

theorem guarded_saveReceipt {k i run : String} (hS : Steady W S) (hφ : Steady W φ) :
    Guarded (Under W d₀ S) φ (transaction_ fun s => s.saveSequenceReceipt k i run) fun _ => φ :=
  guarded_transaction_ fun _ _ hd hf h => by
    have ht : Touches W.checksum (fun _ => False) _ _ := (touches_saveReceipt h).1
    exact ⟨⟨hd.1.aside ht, hS.store _ _ _ _ ht hd.2⟩, hφ.store _ _ _ _ ht hf⟩

theorem guarded_deliverOnce {body request : Bytes} {single : Bool} (hS : Steady W S)
    (hk : Reported W d₀ S key) (hr : request ∈ W.requests body) :
    Guarded (Under W d₀ S) (Bodied key body) (deliverOnce W key single request)
      fun _ => Bodied key body := by
  have hb := steady_bodied (W := W) key body
  refine Guarded.readDisk fun d _ _ => ?_
  split
  · exact Guarded.pure fun _ _ h => h.2
  · rename_i hnew
    split
    · exact (guarded_saveReceipt hS hb).pre (fun _ _ h => h.2) |>.bind fun _ =>
        Guarded.pure fun _ _ h => h
    · refine Guarded.bind (Q := fun _ => Bodied key body) (Guarded.write fun d' hd' hbody => ?_)
        fun _ => (guarded_askOrRaise _).bind fun run => (guarded_saveReceipt hS hb).bind fun _ =>
          (guarded_finish hS hb hk _ _ _ _).bind fun _ => Guarded.pure fun _ _ h => h
      obtain ⟨rfl, hbody⟩ := hbody
      exact ⟨⟨hd'.1.deliver hbody hr hnew, hS.call _ _ _ hd'.2⟩, hb.call _ _ _ hbody⟩

theorem guarded_deliverRequests {body : Bytes} {single : Bool} (hS : Steady W S)
    (hk : Reported W d₀ S key) : ∀ requests : List Bytes, (∀ q ∈ requests, q ∈ W.requests body) →
      Guarded (Under W d₀ S) (Bodied key body) (deliverRequests W key single requests)
        fun _ _ => True
  | [], _ => Guarded.pure fun _ _ _ => trivial
  | request :: rest, h => by
    refine (guarded_askOrRaise _).bind fun _ =>
      (guarded_deliverOnce hS hk (h request List.mem_cons_self)).bind fun _ =>
        (guarded_askOrRaise _).bind fun status => ?_
    cases status with
    | waiting => exact Guarded.pure fun _ _ _ => trivial
    | failed rejected =>
      refine (guarded_finishManual hS hk _).bind fun _ => ?_
      dsimp only
      split
      · exact (guarded_outcome hS steady_true _ _).bind fun _ => Guarded.pure fun _ _ _ => trivial
      · exact Guarded.pure fun _ _ _ => trivial
    | completed =>
      exact guarded_deliverRequests hS hk rest fun q hq => h q (List.mem_cons_of_mem _ hq)

theorem guarded_deliverBody {body : Bytes} (hS : Steady W S) (hk : Reported W d₀ S key) :
    Guarded (Under W d₀ S) (Bodied key body) (deliverBody W key body) fun _ _ => True := by
  refine (guarded_deliverRequests hS hk _ fun _ hq => hq).bind fun settled => ?_
  cases settled with
  | done => exact guarded_finish hS steady_true hk _ _ _ _
  | normalizing => exact (guarded_ask _).bind fun _ => guarded_finish hS steady_true hk _ _ _ _
  | failed => exact Guarded.pure fun _ _ _ => trivial

/-! ## A member -/

variable {r : Round}

theorem guarded_reserveAll : ∀ requests : List Bytes,
    Guarded (Under W d₀ S) φ (reserveAll requests) fun _ => φ
  | [] => Guarded.pure fun _ _ h => h
  | _ :: rest => (guarded_askOrRaise _).bind fun _ => guarded_reserveAll rest

theorem guarded_prepare {body : Bytes} (hS : Steady W S) (hk : Reported W d₀ S key) :
    Guarded (Under W d₀ S) φ (transaction_ fun s => s.prepare W.checksum key body)
      fun _ => Bodied key body :=
  guarded_transaction_ fun _ _ hd _ h =>
    ⟨hd.touches hS hk (touches_prepare h).1, (touches_prepare h).2⟩

theorem guarded_acquireMember (hS : Steady W S) (hk : Reported W d₀ S key)
    (hp : ∀ d, Under W d₀ S d → SaidPlan d₀ d r.planId) :
    Guarded (Under W d₀ S) (Unbodied key) (acquireMember W r key) fun _ _ => True := by
  refine (guarded_askOrRaise _).bind fun _ => ?_
  refine Guarded.bind (Q := fun _ _ => True) (Guarded.write fun d hd hnone =>
    ⟨⟨hd.1.acquire hnone (hp d hd), hS.call _ _ _ hd.2⟩, trivial⟩) fun _ => ?_
  refine (guarded_askOrRaise _).bind fun requests => (guarded_remember _).bind fun _ =>
    (guarded_aside hS steady_true fun s => touches_clearNoDataTrips s _).bind fun _ =>
      (guarded_aside hS steady_true fun s => ?_).bind fun _ => ?_
  · split
    · exact touches_clearProviderOutage s _
    · exact .of_works rfl rfl
  · cases requests with
    | none => exact guarded_finish hS steady_true hk _ _ _ _
    | some body =>
      exact (guarded_reserveAll _).bind fun _ => (guarded_prepare hS hk).bind fun _ =>
        guarded_deliverBody hS hk

theorem guarded_calendarAgain (hS : Steady W S) (hk : Reported W d₀ S key) :
    Guarded (Under W d₀ S) φ (calendarAgain r key) fun _ => φ := by
  unfold calendarAgain
  split
  · refine (guarded_ask _).bind fun observed => ?_
    split
    · refine (guarded_askOrRaise _).bind fun bad => ?_
      split
      · exact (guarded_finishManual hS hk _).bind fun _ => Guarded.throw
      · exact Guarded.pure fun _ _ h => h
    · exact Guarded.pure fun _ _ h => h
  · exact Guarded.pure fun _ _ h => h

theorem guarded_tryMember (hS : Steady W S) (hk : Reported W d₀ S key)
    (hp : ∀ d, Under W d₀ S d → SaidPlan d₀ d r.planId) (member : String) :
    Guarded (Under W d₀ S) φ (tryMember W r member key) fun _ _ => True := by
  unfold tryMember
  split
  · exact ((guarded_outcome hS steady_true _ _).pre fun _ _ _ => trivial).bind fun _ =>
      guarded_finishManual hS hk _
  · refine (guarded_preparedOf key).bind fun body => ?_
    cases body with
    | none =>
      refine ((guarded_calendarAgain hS hk).pre (R := Unbodied key) fun _ _ h => h.2.1 rfl).bind
        fun _ => guarded_acquireMember hS hk hp
    | some body =>
      refine Guarded.pre (R := Bodied key body) ?_ fun _ _ h => h.2.2 body rfl
      refine (guarded_askOrRaise _).bind fun predates => ?_
      split
      · exact guarded_priceBasisManual hS hk
      · exact guarded_deliverBody hS hk

/-! ## The clauses of the `try` -/

theorem guarded_memberBroken (hS : Steady W S) (hk : Reported W d₀ S key) :
    Guarded (Under W d₀ S) φ (memberBroken W key) fun _ _ => True := by
  refine ((guarded_commit hS steady_true hk fun s => touches_stageSourceError s key).pre
    fun _ _ _ => trivial).bind fun _ => (guarded_reportSourceError hS key).bind fun _ =>
      Guarded.pure fun _ _ _ => trivial

theorem guarded_memberEmpty (hS : Steady W S) (hk : Reported W d₀ S key)
    (wait : Option (Bool × Nat × Bool)) :
    Guarded (Under W d₀ S) φ (memberEmpty W r key wait) fun _ _ => True := by
  refine (guarded_askOrRaise _).bind fun count => (guarded_ask _).bind fun now => ?_
  refine Guarded.bind (Q := fun _ _ => True) (guarded_transaction_ fun _ _ hd _ h =>
    ⟨hd.touches hS hk (touches_stageEmptyResponse h), trivial⟩) fun _ => ?_
  refine (guarded_askOrRaise _).bind fun bad => ?_
  split
  · exact (guarded_reportSourceError hS key).bind fun _ =>
      (guarded_finishManual hS hk _).bind fun _ => Guarded.throw
  · exact (guarded_reportSourceError hS key).bind fun _ => (guarded_setReason _).bind fun _ =>
      Guarded.pure fun _ _ _ => trivial

theorem guarded_memberNotReady (hS : Steady W S) (hk : Reported W d₀ S key) :
    Guarded (Under W d₀ S) φ (memberNotReady key) fun _ _ => True := by
  refine (guarded_askOrRaise _).bind fun delay => (guarded_askOrRaise _).bind fun bad => ?_
  split
  · exact (guarded_finishManual hS hk _).bind fun _ => Guarded.throw
  · split
    · exact (guarded_deferWait hS hk _ _).bind fun _ => Guarded.throw
    · exact (guarded_finishManual hS hk _).bind fun _ => Guarded.pure fun _ _ _ => trivial

theorem guarded_holdPlan (hS : Steady W S) :
    Guarded (Under W d₀ S) φ (holdPlan r) fun _ _ => True := by
  refine (guarded_inMemory _).bind fun streak => ?_
  split
  · exact Guarded.pure fun _ _ _ => trivial
  · exact (guarded_ask _).bind fun now =>
      ((guarded_aside hS steady_true fun s => touches_recordNoDataTrip s _ _).pre
        fun _ _ _ => trivial).bind fun _ => Guarded.pure fun _ _ _ => trivial

theorem guarded_memberLimited (hS : Steady W S) (hk : Reported W d₀ S key) (reason : String)
    (noData : Bool) :
    Guarded (Under W d₀ S) φ (memberLimited W r key reason noData) fun _ _ => True := by
  refine ((guarded_outcome hS steady_true _ _).pre fun _ _ _ => trivial).bind fun _ =>
    (guarded_finishWaiting hS hk _).bind fun _ => ?_
  split
  · refine Guarded.readDisk fun d _ _ => ?_
    refine (Guarded.lift fun _ _ _ h _ => h).bind fun counts => ?_
    split
    · exact (guarded_remember _).bind fun _ => guarded_holdPlan hS
    · exact guarded_holdPlan hS
  · exact Guarded.pure fun _ _ _ => trivial

theorem guarded_memberQuota (hS : Steady W S) (hk : Reported W d₀ S key)
    (limited quota noData : Bool) :
    Guarded (Under W d₀ S) φ (memberQuota W r key limited quota noData) fun _ _ => True := by
  refine (guarded_ask _).bind fun dispatched => ?_
  split
  · exact (guarded_deferWait hS hk _ _).bind fun _ => (guarded_setReason _).bind fun _ =>
      Guarded.pure fun _ _ _ => trivial
  · exact guarded_memberLimited hS hk _ _

theorem guarded_memberOutage (hS : Steady W S) (hk : Reported W d₀ S key) (retryAfter : Nat) :
    Guarded (Under W d₀ S) φ (memberOutage key retryAfter) fun _ _ => True := by
  refine (guarded_ask _).bind fun now => ?_
  refine Guarded.bind (Q := fun _ _ => True) (guarded_transaction fun d t a hd _ h => ?_)
    fun since => ?_
  · have ht : (d.store.startOutage key now).1 = t := congrArg Prod.fst (Except.ok.inj h)
    obtain ⟨hworks, hreceipts⟩ := startOutage_works d.store key now
    exact ⟨hd.touches hS hk (ht ▸ .of_works hworks hreceipts), trivial⟩
  · split
    · refine Guarded.bind (Q := fun _ _ => True) ?_ fun _ => Guarded.pure fun _ _ _ => trivial
      exact guarded_transaction_ fun _ _ hd _ h =>
        ⟨hd.touches hS hk (touches_deferWait h), trivial⟩
    · refine (guarded_commit hS steady_true hk fun s => touches_stageSourceError s key).bind fun _ => ?_
      exact (guarded_outcome hS steady_true _ _).bind fun _ =>
        (guarded_finishManual hS hk _).bind fun _ => Guarded.pure fun _ _ _ => trivial

theorem guarded_memberStopped (hS : Steady W S) (hk : Reported W d₀ S key) (windowClosed : Bool) :
    Guarded (Under W d₀ S) φ (memberStopped W r key windowClosed) fun _ _ => True := by
  refine (guarded_ask _).bind fun open_ => (guarded_setReason _).bind fun _ => ?_
  split
  · exact (guarded_deferWait hS hk _ _).bind fun _ => Guarded.pure fun _ _ _ => trivial
  · refine (guarded_ask _).bind fun dispatched => ?_
    split
    · exact (guarded_finishWaiting hS hk _).bind fun _ => Guarded.pure fun _ _ _ => trivial
    · exact (guarded_deferWait hS hk _ _).bind fun _ => Guarded.pure fun _ _ _ => trivial

theorem guarded_memberRejected (hS : Steady W S) (hk : Reported W d₀ S key) (code : Option String)
    (status : Nat) :
    Guarded (Under W d₀ S) φ (memberRejected W key code status) fun _ _ => True := by
  unfold memberRejected
  split
  · exact Guarded.throw
  · refine (guarded_preparedOf key).bind fun body => (guarded_ask _).bind fun dispatched => ?_
    split
    · exact (guarded_deferWait hS hk _ _).bind fun _ => Guarded.pure fun _ _ _ => trivial
    · exact (guarded_ask _).bind fun now =>
        ((guarded_finish hS steady_true hk _ _ _ _).pre fun _ _ _ => trivial).bind fun _ =>
          Guarded.pure fun _ _ _ => trivial

theorem guarded_memberCalendar (hS : Steady W S) (hk : Reported W d₀ S key) :
    Guarded (Under W d₀ S) φ (memberCalendar r key) fun _ _ => True := by
  unfold memberCalendar
  split
  · exact (guarded_deferWait hS hk _ _).bind fun _ =>
      (guarded_finishManual hS hk _).bind fun _ => Guarded.throw
  · exact Guarded.throw

theorem guarded_deferUnavailable (hS : Steady W S) (hk : Reported W d₀ S key) :
    Guarded (Under W d₀ S) φ (deferUnavailable W key) fun _ _ => True := by
  refine (guarded_ask _).bind fun dispatched => ?_
  split
  · refine (guarded_preparedOf key).bind fun body => ?_
    split
    · exact guarded_deferWait hS hk _ _
    · exact Guarded.pure fun _ _ _ => trivial
  · exact Guarded.pure fun _ _ _ => trivial

theorem guarded_memberSdkWait (hS : Steady W S) (hk : Reported W d₀ S key) :
    Guarded (Under W d₀ S) φ (memberSdkWait W r key) fun _ _ => True := by
  unfold memberSdkWait
  split
  · exact (guarded_deferWait hS hk _ _).bind fun _ => (guarded_setReason _).bind fun _ =>
      Guarded.pure fun _ _ _ => trivial
  · exact guarded_memberBroken hS hk

theorem guarded_memberReport (hS : Steady W S) (hk : Reported W d₀ S key) (retryAfter : Nat) :
    Guarded (Under W d₀ S) φ (memberReport W r key retryAfter) fun _ _ => True := by
  unfold memberReport
  split
  · exact guarded_memberOutage hS hk retryAfter
  · exact guarded_memberBroken hS hk

theorem guarded_memberFailed (hS : Steady W S) (hk : Reported W d₀ S key) (e : Exc) :
    Guarded (Under W d₀ S) φ (memberFailed W r key e) fun _ _ => True := by
  cases e with
  | state e => exact guarded_memberBroken hS hk
  | publicationPending => exact guarded_memberBroken hS hk
  | failure f =>
    cases f with
    | recoveryBlocked => exact Guarded.throw
    | fence => exact Guarded.throw
    | calendarRepair => exact guarded_memberCalendar hS hk
    | sourceUnavailable =>
      exact (guarded_deferUnavailable hS hk).bind fun _ => Guarded.throw
    | stopped windowClosed => exact guarded_memberStopped hS hk windowClosed
    | empty wait => exact guarded_memberEmpty hS hk wait
    | targetNotReady => exact guarded_memberNotReady hS hk
    | quotaBlocked quotaWait dispatched => exact guarded_memberQuota hS hk _ _ _
    | twelveData rateLimited noData => exact guarded_memberQuota hS hk _ _ _
    | basisMismatch =>
      exact (guarded_priceBasisManual hS hk).bind fun _ => Guarded.pure fun _ _ _ => trivial
    | sourceResponse code status => exact guarded_memberRejected hS hk code status
    | sdkQuotaWait => exact guarded_memberSdkWait hS hk
    | reportUnavailable retryAfter => exact guarded_memberReport hS hk retryAfter
    | other => exact guarded_memberBroken hS hk

/-! ## The members of a plan -/

theorem guarded_batchOver : Guarded (Under W d₀ S) φ (batchOver r) fun _ => φ := by
  unfold batchOver
  split
  · exact Guarded.pure fun _ _ h => h
  · refine (guarded_inMemory _).bind fun processed => (guarded_ask _).bind fun elapsed => ?_
    dsimp only
    split
    · exact (guarded_setReason _).bind fun _ => Guarded.pure fun _ _ h => h
    · exact Guarded.pure fun _ _ h => h

theorem guarded_restoreBody (hS : Steady W S) (hk : Reported W d₀ S key) :
    Guarded (Under W d₀ S) φ (restoreBody W key) fun _ _ => True := by
  refine (guarded_preparedOf key).bind fun body => ?_
  split
  · exact Guarded.pure fun _ _ _ => trivial
  · refine (guarded_askOrRaise _).bind fun restored => ?_
    split
    · exact Guarded.pure fun _ _ _ => trivial
    · exact (guarded_prepare hS hk).post fun _ _ _ _ => trivial

theorem guarded_heldBack : Guarded (Under W d₀ S) φ (heldBack W r key) fun _ _ => True := by
  refine (guarded_preparedOf key).bind fun body => ?_
  split
  · exact Guarded.pure fun _ _ _ => trivial
  · split
    · exact Guarded.pure fun _ _ _ => trivial
    · exact (guarded_askOrRaise _).bind fun allowed => Guarded.pure fun _ _ _ => trivial

theorem guarded_checkCalendar (member : String) :
    Guarded (Under W d₀ S) φ (checkCalendar W r member key) fun _ _ => True := by
  have hdone : ∀ φ : Disk → Prop, Guarded (Under W d₀ S) φ (pure () : Run Unit) fun _ _ => True :=
    fun _ => Guarded.pure fun _ _ _ => trivial
  refine (guarded_inMemory _).bind fun checked => ?_
  split
  · split
    · refine (guarded_preparedOf key).bind fun body => ?_
      split
      · split
        · refine (guarded_ask _).bind fun now => Guarded.readDisk fun d _ _ => ?_
          split
          · refine (guarded_remember _).bind fun _ => (guarded_askOrRaise _).bind fun bad => ?_
            split
            · exact Guarded.throw
            · exact hdone _
          · exact hdone _
        · exact hdone _
      · exact hdone _
    · exact hdone _
  · exact hdone _

theorem guarded_claimMember (hS : Steady W S) (hk : Reported W d₀ S key)
    (hp : ∀ d, Under W d₀ S d → SaidPlan d₀ d r.planId) (index count : Nat) (member : String) :
    Guarded (Under W d₀ S) φ (claimMember W r index count member key) fun _ _ => True := by
  refine (guarded_ask _).bind fun now => ?_
  refine Guarded.bind (Q := fun _ _ => True) (guarded_transaction fun d t a hd _ h => ?_)
    fun claimed => ?_
  · exact ⟨hd.touches hS hk (touches_claim (Except.ok.inj h)), trivial⟩
  · split
    · exact Guarded.pure fun _ _ _ => trivial
    · refine (guarded_remember _).bind fun _ => Guarded.tryCatch ?_ fun e =>
        guarded_memberFailed hS hk e
      exact (guarded_tryMember hS hk hp member).bind fun _ => Guarded.pure fun _ _ _ => trivial

theorem guarded_processMember (hS : Steady W S) (hk : Reported W d₀ S key)
    (hp : ∀ d, Under W d₀ S d → SaidPlan d₀ d r.planId) (count index : Nat) (member : String) :
    Guarded (Under W d₀ S) φ (processMember W r count index member key) fun _ _ => True := by
  have hdone : ∀ (φ : Disk → Prop) (flow : Flow),
      Guarded (Under W d₀ S) φ (pure flow : Run Flow) fun _ _ => True :=
    fun _ _ => Guarded.pure fun _ _ _ => trivial
  unfold processMember
  split
  · exact hdone _ _
  refine guarded_batchOver.bind fun full => ?_
  split
  · exact hdone _ _
  refine (guarded_ask _).bind fun now => Guarded.readDisk fun d _ _ => ?_
  split
  · exact hdone _ _
  refine (guarded_restoreBody hS hk).bind fun _ => guarded_heldBack.bind fun held => ?_
  split
  · exact hdone _ _
  refine guarded_batchOver.bind fun full => ?_
  split
  · exact hdone _ _
  exact (guarded_checkCalendar member).bind fun _ => guarded_claimMember hS hk hp index count member

theorem guarded_processMembers (count : Nat) :
    ∀ (φ : Disk → Prop) (places : List (Nat × Part × String)),
      (∀ x ∈ places, x.2 ∈ (W.plans r.planId).entries) →
      Guarded (Under W d₀ (SaidPlan d₀ · r.planId)) φ (processMembers W r count places) fun _ _ => True
  | _, [], _ => Guarded.pure fun _ _ _ => trivial
  | _, (index, entry) :: rest, h => by
    have hk : Reported W d₀ (SaidPlan d₀ · r.planId) (workKey entry) :=
      reported_of_plan (h (index, entry) List.mem_cons_self)
    refine (guarded_processMember (steady_saidPlan _) hk (fun _ hd => hd.2) count index entry.2).bind
      fun flow => ?_
    cases flow with
    | goOn => exact guarded_processMembers count _ rest fun x hx => h x (List.mem_cons_of_mem _ hx)
    | stop more => exact Guarded.pure fun _ _ _ => trivial

theorem mem_ordered {offset : Nat} {entries : List (Part × String)} {x : Nat × Part × String}
    (h : x ∈ ordered offset entries) : x.2 ∈ entries := by
  have hx : x ∈ entries.mapIdx fun i e => (i, e) := by
    rcases List.mem_append.mp h with h | h
    · exact List.mem_of_mem_drop h
    · exact List.mem_of_mem_take h
  obtain ⟨i, hi, rfl⟩ := List.mem_mapIdx.mp hx
  exact List.getElem_mem hi

theorem guarded_deliverMembers :
    Guarded (Under W d₀ fun _ => True) φ (deliverMembers W r) fun _ _ => True := by
  refine Guarded.readDisk fun d hd _ => ?_
  dsimp only
  split
  · exact (guarded_reportSourceError steady_true _).bind fun _ => Guarded.pure fun _ _ _ => trivial
  · rename_i hnone
    have hsaid : SaidPlan d₀ d r.planId := by
      intro k w hw hplan w' hw' hpending
      rcases hd.1.pending hw' hpending with hsaid | ⟨hin, e, hentry, hkey⟩
      · exact hsaid w' hw' hpending
      · rw [hw] at hw'
        cases hw'
        rw [hplan] at hin hentry
        refine absurd ?_ (List.find?_eq_none.mp hnone e hentry)
        rw [← hkey]
        exact List.contains_iff_mem.mpr hin
    have heq : (fun d => True ∧ SaidPlan d₀ d r.planId) = (SaidPlan d₀ · r.planId) :=
      funext fun _ => true_and _
    refine Guarded.post (guarded_since (R := (SaidPlan d₀ · r.planId)) (Q := fun _ _ => True)
      (fun d' _ hd' => hd'.1 ▸ hsaid) ?_) fun _ _ _ _ => trivial
    rw [heq]
    exact guarded_processMembers _ _ _ fun x hx => mem_ordered hx

/-! ## The repairs -/

theorem guarded_reportOutstanding {pending : List String} : ∀ (S φ : Disk → Prop)
    (outstanding : List (Grant × String)), Steady W S →
    (∀ x ∈ outstanding, pending.contains x.2 = false → Reported W d₀ S x.2) →
    Guarded (Under W d₀ S) φ (reportOutstanding W pending outstanding)
      fun _ d => ∀ x ∈ outstanding, Said d₀ d x.2
  | _, _, [], _, _ => Guarded.pure fun _ _ _ _ hx => absurd hx List.not_mem_nil
  | S, φ, (g, key) :: rest, hS, h => by
    unfold reportOutstanding
    have hrest := fun x hx => h x (List.mem_cons_of_mem _ hx)
    split
    · refine (guarded_reportSourceError hS key).bind fun _ => ?_
      refine Guarded.post (guarded_since (fun _ _ hs => hs) (guarded_reportOutstanding _ _ rest
        (hS.and (steady_said key)) fun x hx hp => reported_and (hrest x hx hp))) ?_
      exact fun _ _ _ hs => List.forall_mem_cons.mpr hs
    · rename_i hp
      refine (guarded_reportOutstanding S φ rest hS hrest).post fun _ d hd hs => ?_
      exact List.forall_mem_cons.mpr ⟨h (g, key) List.mem_cons_self (Bool.eq_false_iff.mpr hp) d hd, hs⟩

theorem guarded_installRepair {resolved : List String} {grant : Grant} (hS : Steady W S)
    (hk : Reported W d₀ S key) :
    Guarded (Under W d₀ S) φ (installRepair W resolved grant key) fun _ _ => True := by
  unfold installRepair
  split
  · refine Guarded.readDisk fun d _ _ => ?_
    split
    · exact Guarded.pure fun _ _ _ => trivial
    · exact (guarded_finish hS steady_true hk _ _ _ _).pre fun _ _ _ => trivial
  · refine (guarded_preparedOf key).bind fun body => ?_
    split
    · exact Guarded.pure fun _ _ _ => trivial
    · refine (guarded_askOrRaise _).bind fun restored => ?_
      split
      · exact Guarded.pure fun _ _ _ => trivial
      · refine Guarded.bind (Q := fun _ _ => True) (guarded_transaction fun _ _ _ hd _ h =>
          ⟨hd.touches hS hk (touches_applyMemberRepair h), trivial⟩) fun _ => ?_
        exact Guarded.pure fun _ _ _ => trivial

theorem guarded_installAll {resolved : List String} (hS : Steady W S) :
    ∀ (φ : Disk → Prop) (outstanding : List (Grant × String)),
      (∀ x ∈ outstanding, Reported W d₀ S x.2) →
      Guarded (Under W d₀ S) φ (installAll W resolved outstanding) fun _ _ => True
  | _, [], _ => Guarded.pure fun _ _ _ => trivial
  | _, (g, key) :: rest, h => by
    refine (guarded_installRepair hS (h (g, key) List.mem_cons_self)).bind fun _ => ?_
    exact guarded_installAll hS _ rest fun x hx => h x (List.mem_cons_of_mem _ hx)

theorem keyOf_entry {plan : Plan} {member key : String} (h : plan.keyOf member = some key) :
    ∃ e ∈ plan.entries, key = workKey e := by
  unfold Plan.keyOf at h
  obtain ⟨e, he, rfl⟩ := Option.map_eq_some_iff.mp h
  exact ⟨e, List.mem_reverse.mp (List.mem_of_find?_eq_some he), rfl⟩

/-- The repaired members that are not to be reported were. -/
def SaidUnseen (d₀ : Disk) (pending : List String) (outstanding : List (Grant × String)) (d : Disk) :
    Prop :=
  ∀ x ∈ outstanding, pending.contains x.2 = false → Said d₀ d x.2

theorem guarded_installShioajiRepairs :
    Guarded (Under W d₀ fun _ => True) φ (installShioajiRepairs W r) fun _ _ => True := by
  refine (guarded_askOrRaise _).bind fun grants => ?_
  refine Guarded.bind (Q := fun keyed _ => ∀ x ∈ keyed, ∃ e ∈ (W.plans r.planId).entries,
    x.2 = workKey e) (Guarded.lift fun keyed _ _ _ hkeyed x hx => ?_) fun keyed => ?_
  · obtain ⟨g, -, hg⟩ := (mapM_ok hkeyed).2 x hx
    split at hg
    · rename_i key hkey
      cases hg
      exact keyOf_entry hkey
    · cases hg
  refine Guarded.readDisk fun d hd hentries => ?_
  refine Guarded.bind (Q := fun outstanding d' => d' = d ∧ ∀ x ∈ outstanding, x ∈ keyed)
    (Guarded.lift fun outstanding d' _ hd' hfilter => ⟨hd'.1, ?_⟩) fun outstanding => ?_
  · exact fun x hx => filterM_mem hfilter x hx
  split
  · exact Guarded.pure fun _ _ _ => trivial
  refine Guarded.of_facts (fun _ _ h => h.2) fun hkeyed => ?_
  -- what was not to be reported when the repairs were read is said, and then the rest of them
  let pending := d.store.pendingSourceErrorKeys r.planId
  have hunseen : Steady W (SaidUnseen d₀ pending outstanding) :=
    steady_forall fun x => steady_forall fun _ => steady_forall fun _ => steady_said x.2
  have hsaid : Steady W fun d' => ∀ x ∈ outstanding, Said d₀ d' x.2 :=
    steady_forall fun x => steady_forall fun _ => steady_said x.2
  refine Guarded.post (guarded_since (R := SaidUnseen d₀ pending outstanding) (Q := fun _ _ => True)
    ?_ ?_) fun _ _ _ _ => trivial
  · rintro d' - ⟨rfl, -⟩ x hx hp
    obtain ⟨e, he, hkey⟩ := hentries x (hkeyed x hx)
    rw [hkey] at hp ⊢
    exact hd.1.said_of_entry he fun hin => by
      rw [List.contains_iff_mem.mpr hin] at hp
      cases hp
  · refine (guarded_reportOutstanding _ _ outstanding (steady_true.and hunseen)
      fun x hx hp d' hd' => hd'.2.2 x hx hp).bind fun _ => ?_
    refine Guarded.post (guarded_since (Q := fun _ _ => True) (fun _ _ hs => hs) ?_)
      fun _ _ _ _ => trivial
    exact (guarded_askOrRaise _).bind fun resolved =>
      (guarded_installAll ((steady_true.and hunseen).and hsaid) _ outstanding
        fun x hx d' hd' => hd'.2.2 x hx).bind fun _ => guarded_askOrRaise _

theorem guarded_evaluateRound : ∀ (φ : Disk → Prop) (n : Nat),
    Guarded (Under W d₀ fun _ => True) φ (evaluateRound r n) fun _ _ => True
  | _, 0 => Guarded.pure fun _ _ _ => trivial
  | _, n + 1 => by
    refine (guarded_askOrRaise _).bind fun summary =>
      ((guarded_aside steady_true steady_true fun s => touches_evaluate s _ summary).pre
        fun _ _ _ => trivial).bind fun _ => guarded_evaluateRound _ n

/-- Wherever a round dies, the disk it leaves keeps what the next one relies on. -/
theorem guarded_run (provider : String) :
    Guarded (Under W d₀ fun _ => True) φ (Round.run W r provider) fun _ _ => True := by
  refine Guarded.bind (Q := fun _ _ => True) (Guarded.write fun d hd _ =>
    ⟨⟨hd.1.recordPlan r.planId provider, trivial⟩, trivial⟩) fun _ => ?_
  have hrest : Guarded (Under W d₀ fun _ => True) (fun _ => True) (do
      let _ ← deliverMembers W r
      let draining ← ask Answers.draining
      evaluateRound r (draining + 1)) fun _ _ => True :=
    guarded_deliverMembers.bind fun _ => (guarded_ask _).bind fun _ => guarded_evaluateRound _ _
  split
  · exact guarded_installShioajiRepairs.bind fun _ => hrest
  · exact hrest

/-! ## Any rounds -/

/-- What a process leaves that ran a round of any plan. -/
inductive Leads (W : World) (d : Disk) : Disk → Prop where
  | run {d' : Disk} (r : Round) (provider : String) (memory : Memory)
    (h : d' ∈ crashes (Round.run W r provider) d memory) : Leads W d d'

/-- Any number of processes, one after another. -/
abbrev Reaches (W : World) : Disk → Disk → Prop := Relation.ReflTransGen (Leads W)

theorem Kept.reaches {d d' : Disk} (h : Kept W d₀ d) (hd : Reaches W d d') : Kept W d₀ d' := by
  induction hd with
  | refl => exact h
  | tail _ hlast ih =>
    obtain ⟨r, provider, memory, hrun⟩ := hlast
    have hunder : Under W d₀ (fun _ => True) _ := ⟨ih, trivial⟩
    have hguard : Guarded (Under W d₀ fun _ => True) (fun _ => True) (Round.run W r provider)
        fun _ _ => True := guarded_run provider
    exact (hguard.crash hunder trivial hrun).1

theorem sound_reaches {d : Disk} (h : Reaches W ⟨.empty, []⟩ d) : Sound W d :=
  (Kept.reaches ⟨sound_empty, .refl W _⟩ h).sound

theorem since_reaches {d d' : Disk} (h : Reaches W ⟨.empty, []⟩ d) (hd : Reaches W d d') :
    Kept W d d' := Kept.reaches ⟨sound_reaches h, .refl W d⟩ hd

theorem Sound.prepared {d : Disk} (h : Sound W d) {k : String} {body : Bytes} :
    d.store.prepared W.checksum k = .ok (some body) ↔ Bodied k body d := by
  rw [prepared_of_sealed h.isSealed, Except.ok.injEq, Option.bind_eq_some_iff]
  rfl

def ascii (text : String) : Bytes := text.toList.map fun c => UInt8.ofNat c.toNat

def pilotRequest : Bytes := ascii "\x7b\"idempotency_key\":\"finlab:2330\"\x7d"

/-- The request as a list of one. -/
def pilotBody : Bytes := ascii "[" ++ pilotRequest ++ ascii "]"

/-- `hashlib.sha256` of it. -/
def pilotDigest : String := "a9e1af5e549450cde2864719b516792a019e08a27e7bb37ec64fdef7ad448646"

/-- A work item of each plan with two members. -/
def pilotPlans (id : String) : Plan :=
  ⟨id, "tw_equity_eod", "2026-09-21", [⟨id, ["2330", "2317"]⟩], []⟩

theorem pilotPlans_own (id id' : String) (e e' : Part × String) (he : e ∈ (pilotPlans id).entries)
    (he' : e' ∈ (pilotPlans id').entries) (h : workKey e = workKey e') : id = id' := by
  have hmembers : ∀ (id : String) (e : Part × String), e ∈ (pilotPlans id).entries →
      e.1.workItemId = id ∧ e.2.toList.length = 4 := by
    intro id e he
    simp only [pilotPlans, Plan.entries, List.flatMap_cons, List.flatMap_nil, List.append_nil,
      List.map_cons, List.map_nil, List.mem_cons, List.not_mem_nil, or_false] at he
    rcases he with rfl | rfl
    · exact ⟨rfl, (by decide : "2330".toList.length = 4)⟩
    · exact ⟨rfl, (by decide : "2317".toList.length = 4)⟩
  obtain ⟨hid, hlength⟩ := hmembers id e he
  obtain ⟨hid', hlength'⟩ := hmembers id' e' he'
  unfold workKey at h
  rw [hid, hid'] at h
  have hlists := congrArg String.toList h
  simp only [String.toList_append] at hlists
  have hcolon := (List.append_inj' hlists (by rw [hlength, hlength'])).1
  exact String.toList_inj.mp (List.append_inj' hcolon rfl).1

def pilotWorld : World where
  checksum body := if body = pilotBody then pilotDigest else ""
  requests body := if body = pilotBody then [pilotRequest] else []
  identity request := if request = pilotRequest then "finlab:2330" else ""
  plans := pilotPlans
  planId _ := rfl
  own := pilotPlans_own

/-- All goes well, but for what the provider answers. -/
def pilotAnswers (now : Instant) (acquire : Except Failure (Option Bytes)) : Answers where
  now _ := now
  elapsed _ := false
  windowOpen _ := true
  dispatched _ := true
  observed _ := false
  restore _ := .ok none
  allowed _ := .ok true
  calendar _ := .ok false
  authorize _ := .ok ()
  acquire _ := acquire
  reserve _ := .ok ()
  predates _ := .ok false
  prepare _ := .ok ()
  deliver _ := .ok "run"
  runStatus _ := .ok .completed
  outcome _ := .ok ()
  observation _ := .ok (0, 1)
  publicationDelay _ := .ok 0
  repairs _ := .ok []
  resolved _ := .ok []
  acknowledge _ := .ok ()
  evaluate _ := .ok ⟨2, 1, 0, 1, 0, false⟩
  draining _ := 0

def pilotRound : Round := ⟨.finlab, "plan", none, fun _ => true, false, none, true⟩

def pilotRun (now : Instant) (acquire : Except Failure (Option Bytes)) (d : Disk) : List Disk :=
  crashes (Round.run pilotWorld pilotRound "finlab") d ⟨pilotAnswers now acquire, 0, 0, "complete", 0, false⟩

theorem pilotRun_leads {now : Instant} {acquire : Except Failure (Option Bytes)} {d d' : Disk} {n : Nat}
    (h : (pilotRun now acquire d)[n]? = some d') : Reaches pilotWorld d d' :=
  .single (.run pilotRound "finlab" _ (List.mem_of_getElem? h))

structure Columns where
  planId : String
  body : Option Bytes
  reason : Option String
deriving DecidableEq

def Work.columns (w : Work) : Columns := ⟨w.planId, w.body, w.reason⟩

/-- What is read off a disk of the pilot: the calls, and columns of the first member. -/
def pilotRow (d : Disk) : List Event × Option Columns :=
  (d.log, (d.store.works.find? "plan:2330").map Work.columns)

theorem pilotRow_read {now : Instant} {acquire : Except Failure (Option Bytes)} {d : Disk} {n : Nat}
    {log : List Event} {row : Columns}
    (h : ((pilotRun now acquire d).map pilotRow)[n]? = some (log, some row)) :
    ∃ d' w, (pilotRun now acquire d)[n]? = some d' ∧ Reaches pilotWorld d d' ∧ d'.log = log ∧
      d'.store.works.find? "plan:2330" = some w ∧ w.columns = row := by
  rw [List.getElem?_map, Option.map_eq_some_iff] at h
  obtain ⟨d', hd', hrow⟩ := h
  obtain ⟨hlog, hw⟩ := Prod.mk.inj hrow
  obtain ⟨w, hw, hcolumns⟩ := Option.map_eq_some_iff.mp hw
  exact ⟨d', w, hd', pilotRun_leads hd', hlog, hw, hcolumns⟩

/-- **Reports come first.** While the failure of a member is on the disk and no outcome of it was
sent, no process asks a provider for any member of its plan, and the failure stays on the disk. -/
theorem reports_of_restarts {d d' : Disk} {k : String} {w : Work}
    (h : Reaches W ⟨.empty, []⟩ d) (hd : Reaches W d d') (hw : d.store.works.find? k = some w)
    (hpending : w.reason = some "source_error_pending")
    (hsilent : outcomes d'.log k = outcomes d.log k) :
    planAcquisitions d'.log w.planId = planAcquisitions d.log w.planId ∧
      ∃ v, d'.store.works.find? k = some v ∧ v.planId = w.planId ∧
        v.reason = some "source_error_pending" := by
  obtain ⟨-, hsince⟩ := since_reaches h hd
  have hunreported : w.unreported = true := beq_iff_eq.mpr hpending
  rcases hsince.reports k w hw hunreported with hsaid | ⟨⟨v, hv, hplan, hreason⟩, hcalls⟩
  · exact absurd hsilent (Nat.ne_of_gt (hsaid w hw hunreported))
  · rw [(Table.find?_eq_some.mp hw).2] at hv
    exact ⟨hcalls, v, hv, hplan, beq_iff_eq.mp hreason⟩

/-- The process dies with the failure on the disk, and the next one before it reports it. -/
theorem reports_of_restarts_pilot : ∃ d d' v, Reaches pilotWorld ⟨.empty, []⟩ d ∧
    d' ∈ pilotRun (leaseSeconds * second) (.ok (some pilotBody)) d ∧
    planAcquisitions d'.log "plan" = planAcquisitions d.log "plan" ∧
    d'.store.works.find? "plan:2330" = some v ∧ v.reason = some "source_error_pending" := by
  have hfirst : ((pilotRun 0 (.error .other) ⟨.empty, []⟩).map pilotRow)[3]? =
      some ([.acquire "plan" "plan:2330"], some ⟨"plan", none, some "source_error_pending"⟩) := by
    decide +kernel
  have hsecond : ((pilotRun 0 (.error .other) ⟨.empty, []⟩)[3]?.bind fun d =>
      ((pilotRun (leaseSeconds * second) (.ok (some pilotBody)) d).map pilotRow)[3]?) =
      some ([.acquire "plan" "plan:2330"], some ⟨"plan", none, some "source_error_pending"⟩) := by
    decide +kernel
  obtain ⟨d, w, hd, hreaches, hlog, hw, hrow⟩ := pilotRow_read hfirst
  rw [hd, Option.bind_some] at hsecond
  obtain ⟨d', -, hd', hleads, hlog', -⟩ := pilotRow_read hsecond
  have hplan : w.planId = "plan" := congrArg Columns.planId hrow
  obtain ⟨hcalls, v, hv, -, hreason⟩ := reports_of_restarts hreaches hleads hw
    (congrArg Columns.reason hrow) (by rw [hlog', hlog])
  rw [hplan] at hcalls
  exact ⟨d, d', v, hreaches, List.mem_of_getElem? hd', hcalls, hv, hreason⟩

end FinDB.Members
