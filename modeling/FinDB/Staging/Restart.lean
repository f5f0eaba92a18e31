import FinDB.Staging.Custody

/-! # Runs of the coordinator that may die anywhere

Each function of the coordinator keeps the custody at every write, so whatever a process leaves
behind is where the next one can go on: the snapshot it has is not asked for again, the raw object
goes out once, and what is delivered is what was prepared. -/
namespace FinDB.Staging
open FinDB.Lib
open FinDB.Scheduler (Datetime)

variable {P : Platform} {gov : Governance} {F : Frozen}

/-! ## What a call adds to the log -/

theorem filterMap_snoc {α : Type} (f : Event → Option α) (log : List Event) (e : Event) :
    (log ++ [e]).filterMap f = log.filterMap f ++ (f e).toList := by
  rw [List.filterMap_append]
  cases h : f e <;> simp [h]

theorem fetches_append (log : List Event) (e : Event) (k : String × String) :
    fetches (log ++ [e]) k = fetches log k ++ (e.fetchOf k).toList := filterMap_snoc _ log e

theorem uploads_append (log : List Event) (e : Event) (k : String × String) :
    uploads (log ++ [e]) k = uploads log k ++ (e.uploadOf k).toList := filterMap_snoc _ log e

theorem deliveries_append (log : List Event) (e : Event) (k : String × String) :
    deliveries (log ++ [e]) k = deliveries log k ++ (e.deliveryOf k).toList := filterMap_snoc _ log e

def Event.key : Event → String × String
  | .fetch k _ | .upload k _ | .deliver k _ => k

/-- A call of another sequence. -/
theorem calls_other (log : List Event) {e : Event} {k : String × String} (h : e.key ≠ k) :
    fetches (log ++ [e]) k = fetches log k ∧ uploads (log ++ [e]) k = uploads log k ∧
      deliveries (log ++ [e]) k = deliveries log k := by
  rw [fetches_append, uploads_append, deliveries_append]
  cases e <;> simp_all [Event.key, Event.fetchOf, Event.uploadOf, Event.deliveryOf]

/-- A call of a sequence that is in custody and stays there. -/
theorem Held.call {s : Store} {log : List Event} {e : Event} {q : Sequence}
    (h : Held P gov F ⟨s, log⟩) (hq : s.sequences.find? e.key = some q)
    (hcustody : q.Custody P (log ++ [e]))
    (hfrozen : e.fetchOf e.key = none ∨ q.snapshot = none) : Held P gov F ⟨s, log ++ [e]⟩ where
  audited := h.audited
  rows r hr := by
    by_cases hk : e.key = r.key
    · have hself := Table.find?_self hr
      rw [← hk, hq] at hself
      cases hself
      exact hcustody
    · obtain ⟨hf, hu, hd⟩ := calls_other log hk
      have hr' := h.rows r hr
      exact
        { hr' with
          uploaded := hu ▸ hr'.uploaded
          once := hu ▸ hr'.once
          delivered := hd ▸ hr'.delivered
          fetched := hf ▸ hr'.fetched }
  strangers k hk := by
    have hne : e.key ≠ k := by
      rintro rfl
      rw [hk] at hq
      cases hq
    obtain ⟨hf, hu, hd⟩ := calls_other log hne
    rw [hf, hu, hd]
    exact h.strangers k hk
  dated := h.dated
  valid := h.valid
  frozen f hf := by
    obtain ⟨⟨r, hr, hsnap⟩, hfetches⟩ := h.frozen f hf
    refine ⟨⟨r, hr, hsnap⟩, ?_⟩
    by_cases hk : e.key = f.1
    · rw [fetches_append, ← hk]
      rcases hfrozen with hnone | hnone
      · rw [hnone, hk]
        simpa using hfetches
      · rw [← hk] at hr
        have hqr : s.sequences.find? e.key = some r := hr
        rw [hq] at hqr
        cases hqr
        rw [hnone] at hsnap
        cases hsnap
    · rw [(calls_other log hk).1]
      exact hfetches

/-! ## What is known between the steps -/

/-- The sequence has no snapshot. -/
def Unacquired (k : String × String) (d : Disk) : Prop :=
  ∀ q, d.store.sequences.find? k = some q → q.snapshot = none

/-- An attempt is granted, and its number was not used. -/
def Started (k : String × String) (n : Nat) (d : Disk) : Prop :=
  ∃ q, d.store.sequences.find? k = some q ∧ q.snapshot = none ∧ q.attempts = n ∧ 1 ≤ n ∧
    ∀ m ∈ fetches d.log k, m < n

def Acquired (k : String × String) (snap : Bytes) (d : Disk) : Prop :=
  ∀ q, d.store.sequences.find? k = some q → q.snapshot = some snap

/-- The intent of an upload is on the disk. -/
def Uploading (P : Platform) (k : String × String) (snap : Bytes) (d : Disk) : Prop :=
  ∀ q, d.store.sequences.find? k = some q →
    q.snapshot = some snap ∧ q.rawSha256 = some (P.sha256 snap) ∧ q.rawRef = none

def Prepared (k : String × String) (body : Bytes) (d : Disk) : Prop :=
  ∃ q, d.store.sequences.find? k = some q ∧ q.prepared = some body

theorem Started.unacquired {k : String × String} {n : Nat} {d : Disk} (h : Started k n d) :
    Unacquired k d := by
  obtain ⟨q, hq, hsnap, -⟩ := h
  intro r hr
  rw [hq] at hr
  cases hr
  exact hsnap

theorem held_fetch {s : Store} {log : List Event} {k : String × String} {n : Nat}
    (h : Held P gov F ⟨s, log⟩) (hs : Started k n ⟨s, log⟩) :
    Held P gov F ⟨s, log ++ [.fetch k n]⟩ := by
  obtain ⟨q, hq, hsnap, hattempts, hone, hless⟩ := hs
  have hcustody := h.rows q (Table.find?_eq_some.mp hq).1
  have hkey : q.key = k := (Table.find?_eq_some.mp hq).2
  refine h.call hq ?_ (Or.inr hsnap)
  have hups : uploads (log ++ [.fetch k n]) q.key = uploads log q.key := by
    rw [uploads_append]
    simp [Event.uploadOf]
  have hdels : deliveries (log ++ [.fetch k n]) q.key = deliveries log q.key := by
    rw [deliveries_append]
    simp [Event.deliveryOf]
  have hfetches : fetches (log ++ [.fetch k n]) q.key = fetches log q.key ++ [n] := by
    rw [fetches_append, hkey]
    simp [Event.fetchOf]
  refine
    { hcustody with
      uploaded := hups ▸ hcustody.uploaded
      once := hups ▸ hcustody.once
      delivered := hdels ▸ hcustody.delivered
      fetched := ?_ }
  rw [hfetches, List.pairwise_append]
  refine ⟨⟨hcustody.fetched.1, List.pairwise_singleton _ _, fun m hm l hl => ?_⟩, fun m hm => ?_⟩
  · rw [List.mem_singleton.mp hl]
    exact hless m (hkey ▸ hm)
  · rcases List.mem_append.mp hm with hm | hm
    · exact hcustody.fetched.2 m hm
    · rw [List.mem_singleton.mp hm]
      exact ⟨hone, hattempts.ge⟩

theorem held_upload {s : Store} {log : List Event} {k : String × String} {snap : Bytes} {q : Sequence}
    (h : Held P gov F ⟨s, log⟩) (hq : s.sequences.find? k = some q) (hi : Intended P log snap q) :
    Held P gov F ⟨s, log ++ [.upload k snap]⟩ := by
  have hcustody := h.rows q (Table.find?_eq_some.mp hq).1
  have hkey : q.key = k := (Table.find?_eq_some.mp hq).2
  refine h.call hq ?_ (Or.inl rfl)
  have hfetches : fetches (log ++ [.upload k snap]) q.key = fetches log q.key := by
    rw [fetches_append]
    simp [Event.fetchOf]
  have hdels : deliveries (log ++ [.upload k snap]) q.key = deliveries log q.key := by
    rw [deliveries_append]
    simp [Event.deliveryOf]
  have hups : uploads (log ++ [.upload k snap]) q.key = [snap] := by
    rw [uploads_append, hi.first, hkey]
    simp [Event.uploadOf]
  refine
    { hcustody with
      uploaded := ?_
      once := ?_
      delivered := hdels ▸ hcustody.delivered
      fetched := hfetches ▸ hcustody.fetched }
  · rw [hups]
    intro a ha
    rw [List.mem_singleton.mp ha]
    exact ⟨hi.snapshot, by simp [hi.digest]⟩
  · rw [hups]
    exact le_rfl

theorem held_deliver {s : Store} {log : List Event} {k : String × String} {body : Bytes}
    (h : Held P gov F ⟨s, log⟩) (hp : Prepared k body ⟨s, log⟩) :
    Held P gov F ⟨s, log ++ [.deliver k body]⟩ := by
  obtain ⟨q, hq, hprepared⟩ := hp
  have hcustody := h.rows q (Table.find?_eq_some.mp hq).1
  have hkey : q.key = k := (Table.find?_eq_some.mp hq).2
  refine h.call hq ?_ (Or.inl rfl)
  have hfetches : fetches (log ++ [.deliver k body]) q.key = fetches log q.key := by
    rw [fetches_append]
    simp [Event.fetchOf]
  have hups : uploads (log ++ [.deliver k body]) q.key = uploads log q.key := by
    rw [uploads_append]
    simp [Event.uploadOf]
  refine
    { hcustody with
      uploaded := hups ▸ hcustody.uploaded
      once := hups ▸ hcustody.once
      delivered := ?_
      fetched := hfetches ▸ hcustody.fetched }
  rw [deliveries_append, hkey]
  intro b hb
  rcases List.mem_append.mp hb with hb | hb
  · exact hcustody.delivered b (hkey ▸ hb)
  · simp only [Event.deliveryOf, if_pos, Option.toList_some, List.mem_singleton] at hb
    rw [hb]
    exact hprepared

/-! ## The steps of a process -/

variable {φ : Disk → Prop}

/-- Facts that the aggregates do not change. -/
def OfRows (φ : Disk → Prop) : Prop :=
  ∀ s t log, t.sequences = s.sequences → φ ⟨s, log⟩ → φ ⟨t, log⟩

theorem ofRows_true : OfRows fun _ => True := fun _ _ _ _ _ => trivial

theorem ofRows_acquired (k : String × String) (snap : Bytes) : OfRows (Acquired k snap) :=
  fun s t _ ht h q hq => h q (by
    have : t.sequences.find? k = some q := hq
    rw [ht] at this
    exact this)

theorem ofRows_prepared (k : String × String) (body : Bytes) : OfRows (Prepared k body) := by
  rintro s t log ht ⟨q, hq, hprepared⟩
  refine ⟨q, ?_, hprepared⟩
  change t.sequences.find? k = some q
  rw [ht]
  exact hq

theorem guarded_ask {α : Type} (f : Answers → Nat → α) :
    Guarded (Held P gov F) φ (ask f) fun _ => φ := Guarded.think fun _ _ _ h => h

theorem guarded_askOrRaise {α : Type} (f : Answers → Nat → Except Failure α) :
    Guarded (Held P gov F) φ (askOrRaise f) fun _ => φ :=
  (guarded_ask f).bind fun _ => Guarded.lift fun _ _ _ h _ => h

theorem guarded_emit (r : Result) : Guarded (Held P gov F) φ (emit r) fun _ => φ :=
  Guarded.think fun _ _ _ h => h

theorem guarded_record {e : Event} {Q : Disk → Prop}
    (h : ∀ s log, Held P gov F ⟨s, log⟩ → φ ⟨s, log⟩ →
      Held P gov F ⟨s, log ++ [e]⟩ ∧ Q ⟨s, log ++ [e]⟩) :
    Guarded (Held P gov F) φ (record e) fun _ => Q :=
  Guarded.write fun d hd hφ => h d.store d.log hd hφ

theorem guarded_commit {α : Type} {f : Store → Except Err (Store × α)} {Q : α → Disk → Prop}
    (h : ∀ s t log a, Held P gov F ⟨s, log⟩ → φ ⟨s, log⟩ → f s = .ok (t, a) →
      Held P gov F ⟨t, log⟩ ∧ Q a ⟨t, log⟩) :
    Guarded (Held P gov F) φ (commit f) Q := by
  refine Guarded.transact fun d d' a hd hφ hf => ?_
  cases hrun : f d.store with
  | error e =>
    rw [hrun] at hf
    cases hf
  | ok r =>
    rw [hrun] at hf
    cases hf
    exact h d.store r.1 d.log r.2 hd hφ hrun

theorem guarded_commit_ {f : Store → Except Err Store} {Q : Disk → Prop}
    (h : ∀ s t log, Held P gov F ⟨s, log⟩ → φ ⟨s, log⟩ → f s = .ok t →
      Held P gov F ⟨t, log⟩ ∧ Q ⟨t, log⟩) :
    Guarded (Held P gov F) φ (commit_ f) fun _ => Q := by
  refine guarded_commit fun s t log _ hs hφ hf => ?_
  cases hrun : f s with
  | error e =>
    rw [hrun] at hf
    cases hf
  | ok u =>
    rw [hrun] at hf
    cases hf
    exact h s _ log hs hφ hrun

/-- A statement that carries, from facts that are not needed after it. -/
theorem guarded_carries {f : Store → Except Err Store}
    (h : ∀ s t, f s = .ok t → Carries s t ∧ Closes s t) :
    Guarded (Held P gov F) φ (commit_ f) fun _ _ => True :=
  guarded_commit_ fun s t _ hs _ hf =>
    ⟨hs.carries (h s t hf).1 (hs.audited.closes (h s t hf).2), trivial⟩

theorem guarded_refresh (hφ : OfRows φ) (dailyId : String) :
    Guarded (Held P gov F) φ (refresh dailyId) fun _ => φ := by
  refine Guarded.readDisk fun d _ _ => ?_
  have hone : ∀ (f : Store → Store), (∀ s, Carries s (f s)) →
      (∀ s, (f s).sequences = s.sequences ∧ (f s).providerAttempts = s.providerAttempts ∧
        (f s).limiter = s.limiter) →
      Guarded (Held P gov F) φ (commit_ fun s => .ok (f s)) fun _ => φ := by
    intro f hf hsame
    refine guarded_commit_ fun s t log hs h ht => ?_
    cases ht
    obtain ⟨hrows, hattempts, hlimiter⟩ := hsame s
    refine ⟨hs.carries (hf s) (hs.audited.closes (.of_eq hattempts hlimiter fun k => ?_)),
      hφ s _ log hrows h⟩
    unfold Store.attemptCount
    rw [hrows]
  refine Guarded.bind (Q := fun _ => φ) ?_ fun _ => ?_
  · refine Guarded.pre ?_ fun _ _ h => h.2
    exact Guarded.forM_inv fun key _ =>
      hone (·.refreshDataset key) (carries_refreshDataset · key) fun _ => ⟨rfl, rfl, rfl⟩
  · exact hone (·.refreshDaily dailyId) (carries_refreshDaily · dailyId) fun _ => ⟨rfl, rfl, rfl⟩

/-! ## The statements of the coordinator -/

theorem guarded_markTerminal (d y code : String) (reason : Option String) :
    Guarded (Held P gov F) φ (markTerminal d y code reason) fun _ _ => True :=
  (guarded_carries fun _ _ h => ⟨carries_markTerminal h, (markTerminal_quiet h).closes⟩).bind
    fun _ => guarded_refresh ofRows_true d

theorem guarded_saveSource (d y attemptId runId : String) (terminal : Option String) :
    Guarded (Held P gov F) φ (saveSource d y attemptId runId terminal) fun _ _ => True :=
  (guarded_carries fun _ _ h => ⟨carries_saveSource h, (saveSource_quiet h).closes⟩).bind
    fun _ => guarded_refresh ofRows_true d

theorem guarded_saveRaw (d y ref : String) (snap : Bytes) :
    Guarded (Held P gov F) (Uploading P (d, y) snap)
      (saveRaw d y ref (P.sha256 snap) snap.length) fun _ => Acquired (d, y) snap := by
  refine Guarded.bind (Q := fun _ => Acquired (d, y) snap)
    (guarded_commit_ fun s t log hs hu ht => held_saveRaw hs ht hu) fun _ => ?_
  refine Guarded.readDisk fun disk _ _ => ?_
  refine Guarded.pre ?_ fun _ _ h => h.2
  dsimp only
  split
  · exact Guarded.throw.bind fun _ => guarded_refresh (ofRows_acquired _ _) d
  · exact guarded_refresh (ofRows_acquired _ _) d

theorem guarded_savePrepared (d y : String) (body : Bytes) :
    Guarded (Held P gov F) φ (savePrepared P d y body) fun _ => Prepared (d, y) body := by
  refine Guarded.bind (Q := fun _ _ => True)
    (guarded_commit_ fun s t log hs _ ht => ⟨held_savePrepared hs ht, trivial⟩) fun _ => ?_
  refine Guarded.readDisk fun disk _ _ => ?_
  refine Guarded.bind (Q := fun r d' => d' = disk ∧ disk.store.getPrepared P d y = .ok r)
    (Guarded.lift fun _ _ _ h hr => ⟨h.1, hr⟩) fun r => ?_
  dsimp only
  split
  · exact Guarded.throw.bind fun _ => guarded_refresh (ofRows_prepared _ _) d
  · rename_i hbody
    refine (guarded_refresh (ofRows_prepared _ _) d).pre ?_
    rintro d' - ⟨rfl, hr⟩
    have hsome : r = some body := by simpa using hbody
    exact getPrepared_some (hsome ▸ hr)

/-! ## Acquisition -/

variable {clock : Clock} {c : Coordinator}

/-- A row that is done, or one with its snapshot. -/
def Obtained (k : String × String) : Except Bool Bytes → Disk → Prop
  | .error _, _ => True
  | .ok snap, d => Acquired k snap d

theorem guarded_failAttempt {k : String × String} {y : String} {n : Nat} {outcome : Outcome}
    {code stage : String} {retryable : Bool} {reason : Option String} :
    Guarded (Held P gov F) φ (failAttempt c y n outcome code stage retryable reason) (Obtained k) :=
  (guarded_carries fun _ _ h => ⟨carries_finishAttempt h, (finishAttempt_quiet h).closes⟩).bind
    fun _ => (guarded_emit _).bind fun _ => Guarded.pure fun _ _ _ => trivial

theorem guarded_exhausted (y : String) :
    Guarded (Held P gov F) φ (exhausted c y) fun _ => φ :=
  Guarded.readDisk fun _ _ _ => Guarded.pure fun _ _ h => h.2

theorem guarded_failOther {k : String × String} {y : String} {n : Nat} :
    Guarded (Held P gov F) φ (failOther c y n) (Obtained k) :=
  (guarded_exhausted y).bind fun _ => guarded_failAttempt

theorem guarded_fetchSnapshot (y : String) (n : Nat) :
    Guarded (Held P gov F) (Started (c.dailyId, y) n) (fetchSnapshot c y n)
      (Obtained (c.dailyId, y)) := by
  refine Guarded.bind (Q := fun _ => Unacquired (c.dailyId, y))
    (guarded_record fun s log hs hstarted => ⟨held_fetch hs hstarted, hstarted.unacquired⟩)
    fun _ => (guarded_ask _).bind fun fetched => ?_
  cases fetched with
  | snapshot snap =>
    dsimp only
    split
    · exact guarded_failAttempt
    · refine Guarded.tryCatch ?_ fun e => ?_
      · refine (guarded_commit_ fun s t log hs hnone ht => held_completeAttempt hs ht hnone).bind
          fun _ => Guarded.pure fun _ _ h => h
      · split
        · exact (guarded_emit _).bind fun _ => Guarded.pure fun _ _ _ => trivial
        · exact guarded_failOther
  | payload => exact guarded_failAttempt
  | sourceUnavailable undispatched =>
    dsimp only
    split
    · exact (guarded_carries fun _ _ h =>
        ⟨carries_finishAttempt h, (finishAttempt_quiet h).closes⟩).bind fun _ => Guarded.throw
    · exact Guarded.throw
  | quotaBlocked quotaWait dispatched =>
    exact (guarded_exhausted y).bind fun _ => guarded_failAttempt
  | sdk code reason =>
    dsimp only
    split
    · exact guarded_failAttempt
    · exact guarded_failOther
  | other => exact guarded_failOther

theorem attemptCount_of_find {s : Store} {k : String × String} {q : Sequence}
    (h : s.sequences.find? k = some q) : s.attemptCount k = q.attempts := by
  unfold Store.attemptCount
  rw [h]
  rfl

theorem held_acquireAttempt {s t : Store} {log : List Event} {d y : String} {now : Datetime}
    {terminal granted : Bool} {n : Nat} (h : Held P gov F ⟨s, log⟩) (hnone : Unacquired (d, y) ⟨s, log⟩)
    (ht : s.acquireAttempt d y now gov terminal = .ok (t, granted, n)) :
    Held P gov F ⟨t, log⟩ ∧ (granted = true → Started (d, y) n ⟨t, log⟩) := by
  obtain ⟨⟨g, hg, hfind⟩, -, nowText, cutoff, -, hcases⟩ := acquireAttempt_cases ht
  have hcarries := carries_acquireAttempt ht
  rcases hcases with ⟨rfl, hr⟩ | ⟨-, hn, hgranted⟩
  · exact ⟨h.carries hcarries (h.audited.refused hr), fun hf => by cases hf⟩
  refine ⟨h.carries hcarries (h.audited.granted hgranted), fun _ => ?_⟩
  obtain ⟨q, hq, -⟩ := hgranted.sequence
  obtain ⟨hmem, hkey⟩ := Table.find?_eq_some.mp hq
  have hbears := (hg q hmem).2
  have hq' : t.sequences.find? (d, y) = some (g q) := by
    rw [hfind, hq]
    rfl
  have hcount := hgranted.counts (d, y)
  rw [if_pos rfl, attemptCount_of_find hq', attemptCount_of_find hq] at hcount
  rw [attemptCount_of_find hq] at hn
  refine ⟨g q, hq', hbears.basis.snapshot.trans (hnone q hq), hcount.trans hn.symm, by omega, ?_⟩
  intro m hm
  have hle := ((h.rows q hmem).fetched.2 m (hkey.symm ▸ hm)).2
  omega

theorem guarded_acquireSnapshot (y : String) :
    Guarded (Held P c.governance F) (Unacquired (c.dailyId, y)) (acquireSnapshot clock c y)
      (Obtained (c.dailyId, y)) := by
  refine (guarded_ask _).bind fun now => ?_
  dsimp only
  split
  · exact (guarded_emit _).bind fun _ => Guarded.pure fun _ _ _ => trivial
  split
  · exact (guarded_emit _).bind fun _ => Guarded.pure fun _ _ _ => trivial
  refine Guarded.bind
    (Q := fun r d => r.1 = true → Started (c.dailyId, y) r.2 d)
    (guarded_commit fun s t log r hs hnone ht => held_acquireAttempt hs hnone ht) fun r => ?_
  obtain ⟨ok, n⟩ := r
  dsimp only
  split
  · refine Guarded.readDisk fun disk _ _ => ?_
    split
    · exact (guarded_emit _).bind fun _ => Guarded.pure fun _ _ _ => trivial
    · exact (guarded_emit _).bind fun _ => Guarded.pure fun _ _ _ => trivial
  · rename_i hok
    have hok' : ok = true := by simpa using hok
    refine (guarded_ask _).bind fun later => ?_
    refine Guarded.pre (R := Started (c.dailyId, y) n) ?_ fun _ _ h => h hok'
    split
    · exact guarded_failAttempt
    · exact guarded_fetchSnapshot y n

/-! ## Delivery -/

theorem guarded_prepareRequest (y : String) (snap : Bytes) :
    Guarded (Held P gov F) (Acquired (c.dailyId, y) snap) (prepareRequest P c y snap)
      fun ready d => ∀ body, ready = some body → Prepared (c.dailyId, y) body d := by
  have hlast : ∀ (φ : Disk → Prop), Guarded (Held P gov F) φ (do
      let body ← askOrRaise Answers.prepare
      savePrepared P c.dailyId y body
      return some body)
      fun ready d => ∀ body, ready = some body → Prepared (c.dailyId, y) body d := fun φ =>
    (guarded_askOrRaise _).bind fun body => (guarded_savePrepared _ y body).bind fun _ =>
      Guarded.pure fun d _ h _ hsome => Option.some.inj hsome ▸ h
  refine (guarded_askOrRaise _).bind fun restored => ?_
  split
  · rename_i body
    exact (guarded_savePrepared _ y body).bind fun _ =>
      Guarded.pure fun d _ h _ hsome => Option.some.inj hsome ▸ h
  · exact Guarded.throw
  · refine Guarded.readDisk fun disk _ _ => ?_
    dsimp only
    split
    · rename_i hraw
      have hraw' : disk.store.getRaw c.dailyId y = none := Option.isNone_iff_eq_none.mp hraw
      refine Guarded.bind
        (Q := fun intent d => intent ≠ .uncertain → ∃ q, d.store.sequences.find? (c.dailyId, y) = some q ∧
          Intended P d.log snap q)
        (guarded_commit fun s t log intent hs hφ ht => ?_) fun intent => ?_
      · obtain ⟨rfl, hsnap⟩ := hφ
        obtain ⟨hheld, -, hintended⟩ := held_beginRaw hs ht hsnap hraw'
        exact ⟨hheld, hintended⟩
      · split
        · exact (guarded_markTerminal _ y _ none).bind fun _ => (guarded_emit _).bind fun _ =>
            Guarded.pure fun _ _ _ _ hsome => by cases hsome
        · rename_i hintent
          have hne : intent ≠ .uncertain := by simpa using hintent
          refine Guarded.bind (Q := fun _ => Uploading P (c.dailyId, y) snap)
            (guarded_record fun s log hs hφ => ?_) fun _ => ?_
          · obtain ⟨q, hq, hi⟩ := hφ hne
            refine ⟨held_upload hs hq hi, fun r hr => ?_⟩
            have hqr : s.sequences.find? (c.dailyId, y) = some r := hr
            rw [show s.sequences.find? (c.dailyId, y) = some q from hq] at hqr
            cases hqr
            exact ⟨hi.snapshot, hi.digest, hi.unsaved⟩
          · exact (guarded_askOrRaise _).bind fun ref => (guarded_saveRaw _ y ref snap).bind
              fun _ => hlast _
    · exact hlast _

theorem guarded_callSource (y : String) (count : Nat) (body : Bytes) :
    Guarded (Held P gov F) (Prepared (c.dailyId, y) body) (callSource c y count body)
      fun _ _ => True := by
  refine Guarded.bind (Q := fun _ _ => True)
    (guarded_record fun s log hs hp => ⟨held_deliver hs hp, trivial⟩) fun _ => ?_
  refine (guarded_askOrRaise _).bind fun receipt => ?_
  refine (guarded_askOrRaise _).bind fun terminal => ?_
  exact (guarded_saveSource _ y _ _ _).bind fun _ => (guarded_emit _).bind fun _ =>
    Guarded.pure fun _ _ _ => trivial

theorem guarded_deliverPrepared (y : String) (count : Nat) (body : Bytes) :
    Guarded (Held P gov F) (Prepared (c.dailyId, y) body) (deliverPrepared P c y count body)
      fun _ _ => True := by
  unfold deliverPrepared
  dsimp only
  split
  · exact Guarded.throw.bind fun _ => guarded_callSource y count body
  · exact guarded_callSource y count body

theorem guarded_deliverRow (y : String) (snap : Bytes) (count : Nat) (prepared : Option Bytes) :
    Guarded (Held P gov F)
      (fun d => Acquired (c.dailyId, y) snap d ∧
        ∀ body, prepared = some body → Prepared (c.dailyId, y) body d)
      (deliverRow P c y snap count prepared) fun _ _ => True := by
  cases prepared with
  | some body => exact (guarded_deliverPrepared y count body).pre fun _ _ h => h.2 body rfl
  | none =>
    refine Guarded.bind
      (Q := fun ready d => ∀ body, ready = some body → Prepared (c.dailyId, y) body d)
      ((guarded_prepareRequest y snap).pre fun _ _ h => h.1) fun ready => ?_
    cases ready with
    | none => exact Guarded.pure fun _ _ _ => trivial
    | some body => exact (guarded_deliverPrepared y count body).pre fun _ _ h => h body rfl

theorem guarded_deliveryFailed (y : String) (e : Exc) :
    Guarded (Held P gov F) φ (deliveryFailed c y e) fun _ _ => True := by
  have hretry : ∀ r, Guarded (Held P gov F) φ (do
      emit r
      return false) fun (_ : Bool) _ => True := fun r =>
    (guarded_emit r).bind fun _ => Guarded.pure fun _ _ _ => trivial
  unfold deliveryFailed
  split
  · exact hretry _
  · exact Guarded.throw
  · exact (guarded_markTerminal _ y _ none).bind fun _ => (guarded_emit _).bind fun _ =>
      Guarded.pure fun _ _ _ => trivial
  · exact hretry _
  · exact hretry _

theorem guarded_finishBuilt (y : String) (snap : Bytes) (built : Built) :
    Guarded (Held P gov F) (Acquired (c.dailyId, y) snap) (finishBuilt P c y snap built)
      fun _ _ => True := by
  cases built with
  | payload =>
    exact (guarded_markTerminal _ y _ _).bind fun _ => (guarded_emit _).bind fun _ =>
      Guarded.pure fun _ _ _ => trivial
  | contract =>
    exact (guarded_markTerminal _ y _ _).bind fun _ => (guarded_emit _).bind fun _ =>
      Guarded.pure fun _ _ _ => trivial
  | raises => exact Guarded.throw
  | request count =>
    unfold finishBuilt
    dsimp only
    split
    · refine Guarded.tryCatch ?_ fun e => ?_
      · have hvalidated : Guarded (Held P gov F) (fun _ => True) (do
            emit (Result.make "VALIDATED" "payload" count false none none none)
            return true) fun _ _ => True :=
          (guarded_emit _).bind fun _ => Guarded.pure fun _ _ _ => trivial
        split
        · exact (guarded_carries fun _ _ h => ⟨carries_markPreflight h, (markPreflight_quiet h).closes⟩).bind
            fun _ => hvalidated
        · exact hvalidated.pre fun _ _ _ => trivial
      · split
        · exact (guarded_emit _).bind fun _ => Guarded.pure fun _ _ _ => trivial
        · exact Guarded.throw
    split
    · exact (guarded_emit _).bind fun _ => Guarded.pure fun _ _ _ => trivial
    · refine Guarded.readDisk fun disk _ _ => ?_
      refine Guarded.bind (Q := fun prepared d => Acquired (c.dailyId, y) snap d ∧
        ∀ body, prepared = some body → Prepared (c.dailyId, y) body d)
        (Guarded.lift fun prepared d _ h hp => ⟨h.2, fun body hbody => ?_⟩) fun prepared => ?_
      · rw [h.1]
        exact getPrepared_some (hbody ▸ hp)
      · exact Guarded.tryCatch (guarded_deliverRow y snap count prepared) (guarded_deliveryFailed y)

theorem guarded_finishRow (y : String) (snap : Bytes) :
    Guarded (Held P gov F) (Acquired (c.dailyId, y) snap) (finishRow P c y snap) fun _ _ => True := by
  unfold finishRow
  refine (guarded_ask _).bind fun _ => ?_
  refine Guarded.readDisk fun disk _ _ => ?_
  refine Guarded.pre ?_ fun _ _ h => h.2
  split
  · exact guarded_finishBuilt y snap .payload
  · exact (guarded_ask _).bind fun built => guarded_finishBuilt y snap built

/-! ## The run -/

theorem guarded_processRow (row : PlanRow) :
    Guarded (Held P c.governance F) (fun _ => True) (processRow P clock c row) fun _ _ => True := by
  unfold processRow
  refine Guarded.readDisk fun disk _ _ => ?_
  split
  · refine Guarded.readDisk fun disk _ _ => ?_
    exact (guarded_emit _).bind fun _ => Guarded.pure fun _ _ _ => trivial
  · refine Guarded.readDisk fun disk _ _ => ?_
    split
    · rename_i snap hsnap
      refine (guarded_finishRow row.symbol snap).pre ?_
      rintro d' - ⟨rfl, -⟩ q hq
      rw [hq] at hsnap
      exact hsnap
    · rename_i hnone
      refine Guarded.bind (Q := Obtained (c.dailyId, row.symbol))
        ((guarded_acquireSnapshot row.symbol).pre ?_) fun obtained => ?_
      · rintro d' - ⟨rfl, -⟩ q hq
        rw [hq] at hnone
        exact hnone
      · cases obtained with
        | error goOn => exact Guarded.pure fun _ _ _ => trivial
        | ok snap => exact guarded_finishRow row.symbol snap

theorem guarded_processRows (rows : List PlanRow) :
    Guarded (Held P c.governance F) (fun _ => True) (processRows P clock c rows) fun _ _ => True := by
  induction rows with
  | nil => exact Guarded.pure fun _ _ _ => trivial
  | cons row rows ih =>
    refine (guarded_processRow row).bind fun goOn => ?_
    split
    · exact ih
    · exact Guarded.pure fun _ _ _ => trivial

theorem guarded_run :
    Guarded (Held P c.governance F) (fun _ => True) (Coordinator.run P clock c) fun _ _ => True := by
  have hsay : ∀ (φ : Disk → Prop) r, Guarded (Held P c.governance F) φ (do
      emit r
      return ()) fun _ _ => True := fun φ r =>
    (guarded_emit r).bind fun _ => Guarded.pure fun _ _ _ => trivial
  unfold Coordinator.run
  refine (guarded_ask _).bind fun now => ?_
  split
  · exact hsay _ _
  dsimp only
  split
  · exact hsay _ _
  rename_i hdate
  split
  · exact hsay _ _
  refine Guarded.bind (Q := fun _ _ => True) ?_ fun ready => ?_
  · refine Guarded.tryCatch ?_ fun e => ?_
    · refine Guarded.bind (Q := fun _ _ => True)
        (guarded_commit_ fun s t log hs _ ht => ⟨held_ensurePlan hs ht ?_, trivial⟩)
        fun _ => Guarded.pure fun _ _ _ => trivial
      simpa using hdate
    · split
      · exact (guarded_emit _).bind fun _ => Guarded.pure fun _ _ _ => trivial
      · exact Guarded.throw
  split
  · exact Guarded.pure fun _ _ _ => trivial
  refine Guarded.readDisk fun disk _ _ => ?_
  split
  · split
    · exact hsay _ _
    · exact hsay _ _
  split
  · exact hsay _ _
  · exact (guarded_processRows _).pre fun _ _ _ => trivial

/-! ## Processes one after another -/

/-- What comes next on a disk: a coordinator that runs and may die at any write, with any answers
of the world, or the scheduler that marks the cutoff. -/
inductive Leads (P : Platform) (gov : Governance) (d : Disk) : Disk → Prop where
  | run {d' : Disk} (clock : Clock) (c : Coordinator) (memory : Memory) (hc : c.governance = gov)
    (h : d' ∈ crashes (Coordinator.run P clock c) d memory) : Leads P gov d d'
  | cutoff {t : Store} (dailyId : String) (n : Nat) (h : d.store.markCutoff dailyId = .ok (t, n)) :
    Leads P gov d ⟨t, d.log⟩

/-- Any number of processes. -/
abbrev Reaches (P : Platform) (gov : Governance) : Disk → Disk → Prop :=
  Relation.ReflTransGen (Leads P gov)

theorem Held.leads {d d' : Disk} (h : Held P gov F d) (hd : Leads P gov d d') : Held P gov F d' := by
  cases hd with
  | run clock c memory hc hrun =>
    subst hc
    exact guarded_run.crash h trivial hrun
  | cutoff dailyId n ht =>
    exact Held.carries (s := d.store) h (carries_markCutoff ht)
      (h.audited.closes (markCutoff_quiet ht).closes)

theorem Held.reaches {d d' : Disk} (h : Held P gov F d) (hd : Reaches P gov d d') :
    Held P gov F d' := by
  induction hd with
  | refl => exact h
  | tail _ hlast ih => exact ih.leads hlast

theorem held_reaches {d : Disk} (h : Reaches P gov ⟨.empty, []⟩ d) : Held P gov [] d :=
  held_empty.reaches h

/-- The invariant from here on, with a snapshot that is there. -/
theorem Held.freeze {d : Disk} {q : Sequence} {snap : Bytes} (h : Held P gov [] d)
    (hq : d.store.sequences.find? q.key = some q) (hsnap : q.snapshot = some snap) :
    Held P gov [(q.key, snap, fetches d.log q.key)] d :=
  { h with
    frozen := fun e he => by
      rw [List.mem_singleton.mp he]
      exact ⟨⟨q, hq, hsnap⟩, rfl⟩ }

/-- **The custody.** However often coordinators ran and wherever they died: the calls of the
provider for a sequence have different numbers, not above its attempts; the raw object of a
sequence left at most once, and it was the snapshot that is stored; everything that was delivered
for it is the prepared request that is stored, which still matches its row; and no call was made
for a sequence that is not in the database. -/
theorem custody_of_restarts {d : Disk} (h : Reaches P gov ⟨.empty, []⟩ d) :
    (∀ q ∈ d.store.sequences,
      (fetches d.log q.key).Pairwise (· < ·) ∧ (∀ n ∈ fetches d.log q.key, 1 ≤ n ∧ n ≤ q.attempts) ∧
      d.store.budgetUsed q.dailyId q.symbol ≤ gov.maxAttempts ∧
      (uploads d.log q.key).length ≤ 1 ∧
      (∀ snap ∈ uploads d.log q.key, q.snapshot = some snap ∧ q.rawSha256 = some (P.sha256 snap)) ∧
      ∀ body ∈ deliveries d.log q.key, q.prepared = some body ∧
        d.store.validatePrepared P q.dailyId q.symbol body = true) ∧
    ∀ k, d.store.sequences.find? k = none → ∀ e ∈ d.log, e.key ≠ k := by
  have hheld := held_reaches h
  refine ⟨fun q hq => ?_, fun k hk e he hek => ?_⟩
  · have hcustody := hheld.rows q hq
    refine ⟨hcustody.fetched.1, hcustody.fetched.2, hheld.audited.budget _ _, hcustody.once,
      fun snap hsnap => ?_, fun body hbody => ?_⟩
    · obtain ⟨hsnapshot, hsha⟩ := hcustody.uploaded snap hsnap
      obtain ⟨digest, hdigest⟩ := Option.isSome_iff_exists.mp hsha
      obtain ⟨snap', hsnap', rfl⟩ := hcustody.digest digest hdigest
      rw [hsnapshot] at hsnap'
      cases hsnap'
      exact ⟨hsnapshot, hdigest⟩
    · have hprepared := hcustody.delivered body hbody
      exact ⟨hprepared, hheld.valid q hq body hprepared⟩
  · obtain ⟨hf, hu, hd⟩ := hheld.strangers k hk
    cases e with
    | fetch k' n =>
      have : n ∈ fetches d.log k := List.mem_filterMap.mpr ⟨_, he, if_pos hek⟩
      rw [hf] at this
      cases this
    | upload k' snap =>
      have : snap ∈ uploads d.log k := List.mem_filterMap.mpr ⟨_, he, if_pos hek⟩
      rw [hu] at this
      cases this
    | deliver k' body =>
      have : body ∈ deliveries d.log k := List.mem_filterMap.mpr ⟨_, he, if_pos hek⟩
      rw [hd] at this
      cases this

/-! ### A day of the pilot -/

theorem pilotNow : 0 < 60 := by decide

def pilotClock : Clock := ⟨fun _ => (pilotDay, "14:30")⟩

def pilotCoordinator : Coordinator :=
  ⟨"u", reviewed, "17:00", pilotPlan.rows, true, true, true, true, pilotDay, true, false, false⟩

/-- The provider has a snapshot, the store and the source take what they are sent. -/
def pilotAnswers (snap : Bytes) : Answers where
  now _ := pilotTime 0 pilotNow
  fetch _ := .snapshot snap
  build _ := .request 1
  restore _ := .ok none
  persist _ := .ok "r2://raw/1"
  prepare _ := .ok pilotRequest
  deliver _ := .ok ("attempt", "run")
  waitTerminal _ := .ok "completed"

def pilotRun (snap : Bytes) (d : Disk) : List Disk :=
  crashes (Coordinator.run plainPlatform pilotClock pilotCoordinator) d ⟨pilotAnswers snap, 0, []⟩

theorem pilotRun_reaches {snap : Bytes} {d d' : Disk} (h : d' ∈ pilotRun snap d) :
    Reaches plainPlatform reviewed d d' := .single (.run pilotClock pilotCoordinator _ rfl h)

/-- The log and the row of the pilot. -/
def pilotRow (d : Disk) : List Event × Option (Option Bytes × Option Bytes) :=
  (d.log, (d.store.sequences.find? ("u:2026-09-21", "2330")).map fun q => (q.snapshot, q.prepared))

/-- The day from a disk, as its row is read off. -/
theorem pilotRun_row {snap : Bytes} {d : Disk} {n : Nat} {log : List Event}
    {row : Option Bytes × Option Bytes}
    (h : ((pilotRun snap d).map pilotRow)[n]? = some (log, some row)) :
    ∃ d' q, (pilotRun snap d)[n]? = some d' ∧ Reaches plainPlatform reviewed d d' ∧ d'.log = log ∧
      q ∈ d'.store.sequences ∧ q.key = ("u:2026-09-21", "2330") ∧ (q.snapshot, q.prepared) = row := by
  rw [List.getElem?_map, Option.map_eq_some_iff] at h
  obtain ⟨d', hd', hrow⟩ := h
  obtain ⟨hlog, hq⟩ := Prod.mk.inj hrow
  obtain ⟨q, hq, hcolumns⟩ := Option.map_eq_some_iff.mp hq
  obtain ⟨hmem, hkey⟩ := Table.find?_eq_some.mp hq
  exact ⟨d', q, hd', pilotRun_reaches (List.mem_of_getElem? hd'), hlog, hmem, hkey, hcolumns⟩

/-- The calls of a day that ends in a delivery. -/
def pilotLog : List Event :=
  [.fetch ("u:2026-09-21", "2330") 1, .upload ("u:2026-09-21", "2330") [1, 2, 3],
    .deliver ("u:2026-09-21", "2330") pilotRequest]

theorem custody_of_restarts_pilot : ∃ d q, Reaches plainPlatform reviewed ⟨.empty, []⟩ d ∧
    d.log = pilotLog ∧ q ∈ d.store.sequences ∧ q.snapshot = some [1, 2, 3] ∧
    q.prepared = some pilotRequest := by
  have hrun : ((pilotRun [1, 2, 3] ⟨.empty, []⟩).map pilotRow)[0]? = some
      (pilotLog, some (some [1, 2, 3], some pilotRequest)) := by decide +kernel
  obtain ⟨d, q, -, hreaches, hlog, hq, hkey, -⟩ := pilotRun_row hrun
  obtain ⟨-, -, -, -, huploads, hdeliveries⟩ := (custody_of_restarts hreaches).1 q hq
  rw [hlog, hkey] at huploads hdeliveries
  exact ⟨d, q, hreaches, hlog, hq, (huploads [1, 2, 3] (by decide +kernel)).1,
    (hdeliveries pilotRequest (by decide +kernel)).1⟩

/-- **No second acquisition.** Once the snapshot of a sequence is on the disk, no process ever asks
the provider for it again, and the snapshot stays what it is. -/
theorem snapshot_is_final {d d' : Disk} {q : Sequence} {snap : Bytes}
    (h : Reaches P gov ⟨.empty, []⟩ d) (hd : Reaches P gov d d') (hq : q ∈ d.store.sequences)
    (hsnap : q.snapshot = some snap) :
    fetches d'.log q.key = fetches d.log q.key ∧
      ∃ r ∈ d'.store.sequences, r.key = q.key ∧ r.snapshot = some snap := by
  have hheld := ((held_reaches h).freeze (Table.find?_self hq) hsnap).reaches hd
  obtain ⟨⟨r, hr, hsnapshot⟩, hfetches⟩ := hheld.frozen _ (List.mem_singleton_self _)
  obtain ⟨hmem, hkey⟩ := Table.find?_eq_some.mp hr
  exact ⟨hfetches, r, hmem, hkey, hsnapshot⟩

/-- The process dies with the snapshot on the disk, and the next one is offered another. -/
theorem snapshot_is_final_pilot : ∃ d d' r, Reaches plainPlatform reviewed ⟨.empty, []⟩ d ∧
    d' ∈ pilotRun [9] d ∧ d'.log = pilotLog ∧
    fetches d'.log ("u:2026-09-21", "2330") = fetches d.log ("u:2026-09-21", "2330") ∧
    r ∈ d'.store.sequences ∧ r.snapshot = some [1, 2, 3] := by
  have hrun : ((pilotRun [1, 2, 3] ⟨.empty, []⟩).map pilotRow)[12]? = some
      ([.fetch ("u:2026-09-21", "2330") 1], some (some [1, 2, 3], none)) := by decide +kernel
  have hagain : ((pilotRun [1, 2, 3] ⟨.empty, []⟩)[12]?.bind fun d =>
      ((pilotRun [9] d).map pilotRow)[0]?) = some
      (pilotLog, some (some [1, 2, 3], some pilotRequest)) := by decide +kernel
  obtain ⟨d, q, hd, hreaches, -, hq, hkey, hcolumns⟩ := pilotRun_row hrun
  rw [hd, Option.bind_some] at hagain
  obtain ⟨d', -, hd', hleads, hlog, -⟩ := pilotRun_row hagain
  obtain ⟨hfetches, r, hr, -, hsnap⟩ :=
    snapshot_is_final hreaches hleads hq (congrArg Prod.fst hcolumns)
  rw [hkey] at hfetches
  exact ⟨d, d', r, hreaches, List.mem_of_getElem? hd', hlog, hfetches, hr, hsnap⟩

/-! ## Opening the file again -/

theorem Held.validSequence {d : Disk} {q : Sequence} (h : Held P gov F d) (hgov : gov.maxAttempts ≤ 3)
    (hq : q ∈ d.store.sequences) : d.store.validSequence P q = true := by
  have hcustody := h.rows q hq
  have hnumbers := h.audited.numbered q.dailyId q.symbol
  have hcount : d.store.attemptCount (q.dailyId, q.symbol) = q.attempts :=
    attemptCount_of_find (Table.find?_self hq)
  rw [hcount] at hnumbers
  unfold Store.validSequence
  simp only [Bool.and_eq_true, decide_eq_true_eq]
  refine ⟨⟨⟨⟨⟨⟨(h.audited.budget _ _).trans hgov, ?_⟩, ?_⟩, ?_⟩, ?_⟩, ?_⟩, ?_⟩
  · rw [hnumbers, List.mergeSort_of_pairwise]
    · exact beq_self_eq_true _
    · exact (List.pairwise_le_range' 1).imp fun h => decide_eq_true h
  · cases hsha : q.rawSha256 with
    | none => rfl
    | some digest =>
      obtain ⟨snap, -, rfl⟩ := hcustody.digest digest hsha
      obtain ⟨hlength, hhex⟩ := P.hexdigest snap
      simp only [nullOr, Option.all_some, hlength, hhex]
      rfl
  · split
    · rename_i snap digest hsnap hsha
      obtain ⟨snap', hsnap', rfl⟩ := hcustody.digest digest hsha
      rw [hsnap] at hsnap'
      cases hsnap'
      exact beq_self_eq_true _
    · rfl
  · cases href : q.rawRef with
    | none => rfl
    | some ref => exact decide_eq_true (hcustody.ref ref href)
  · split
    · rename_i size snap hsize hsnap
      obtain ⟨snap', hsnap', rfl⟩ := hcustody.size size hsize
      rw [hsnap] at hsnap'
      cases hsnap'
      exact beq_self_eq_true _
    · rfl
  · split
    · rename_i body hbody
      rw [Bool.and_eq_true, hcustody.prepared body hbody]
      exact ⟨beq_self_eq_true _, h.valid q hq body hbody⟩
    · rfl

/-- **The file opens again.** Whatever a process left behind, with the reviewed number of attempts
the checks that the next one makes when it opens the database pass. -/
theorem reopens_of_restarts {d : Disk} (h : Reaches P gov ⟨.empty, []⟩ d) (hgov : gov.maxAttempts ≤ 3) :
    d.store.validSemantics P = true := by
  have hheld := held_reaches h
  unfold Store.validSemantics
  rw [Bool.and_eq_true, List.all_eq_true, List.all_eq_true]
  refine ⟨fun u hu => ?_, fun q hq => hheld.validSequence hgov hq⟩
  have hdated := hheld.dated u hu
  unfold validTargetDate at hdated
  exact hdated

theorem reopens_of_restarts_pilot : ∃ d, Reaches plainPlatform reviewed ⟨.empty, []⟩ d ∧
    d.log = pilotLog ∧ d.store.validSemantics plainPlatform = true := by
  have hrun : ((pilotRun [1, 2, 3] ⟨.empty, []⟩).map pilotRow)[0]? = some
      (pilotLog, some (some [1, 2, 3], some pilotRequest)) := by decide +kernel
  obtain ⟨d, q, -, hreaches, hlog, -⟩ := pilotRun_row hrun
  exact ⟨d, hreaches, hlog, reopens_of_restarts hreaches (by decide)⟩

end FinDB.Staging
