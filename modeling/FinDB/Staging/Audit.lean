import FinDB.Staging.Operations

/-! # The attempts in the audit

The statements of any number of processes in any order, as operations of one machine. Of the
audit an operation closes started attempts or adds the next one; nothing else of it changes. -/
namespace FinDB.Staging
open FinDB.Lib
open FinDB.Scheduler (Datetime)

/-! ## The statements as operations -/

inductive Op where
  | ensure (plan : Plan)
  | acquireAttempt (dailyId symbol : String) (now : Datetime) (terminalOnExhaustion : Bool)
  | finishAttempt (dailyId symbol : String) (attempt : Nat) (outcome : Outcome) (code : String)
      (retryable : Bool) (reason : Option String)
  | completeAttempt (dailyId symbol : String) (attempt : Nat) (snapshot : Bytes)
  | markCutoff (dailyId : String)
  | markTerminal (dailyId symbol code : String) (reason : Option String)
  | beginRaw (dailyId symbol : String) (snapshot : Bytes)
  | saveRaw (dailyId symbol ref sha256 : String) (sizeBytes : Nat)
  | savePrepared (dailyId symbol : String) (body : Bytes)
  | saveSource (dailyId symbol attemptId runId : String) (terminal : Option String)
  | markPreflightValidated (dailyId symbol : String)
  | refreshDataset (key : String × String)
  | refreshDaily (dailyId : String)

variable (P : Platform) (gov : Governance)

def Op.run (s : Store) : Op → Except Err Store
  | .ensure plan => s.ensurePlan P plan
  | .acquireAttempt d y now terminal => (·.1) <$> s.acquireAttempt d y now gov terminal
  | .finishAttempt d y n outcome code retryable reason =>
    s.finishAttempt d y n outcome code retryable reason
  | .completeAttempt d y n snapshot => s.completeAttemptWithSnapshot d y n snapshot
  | .markCutoff d => (·.1) <$> s.markCutoff d
  | .markTerminal d y code reason => s.markTerminal d y code reason
  | .beginRaw d y snapshot => (·.1) <$> s.beginRaw P d y snapshot
  | .saveRaw d y ref sha256 size => s.saveRaw d y ref sha256 size
  | .savePrepared d y body => s.savePrepared P d y body
  | .saveSource d y attemptId runId terminal => s.saveSource d y attemptId runId terminal
  | .markPreflightValidated d y => s.markPreflightValidated d y
  | .refreshDataset key => .ok (s.refreshDataset key)
  | .refreshDaily d => .ok (s.refreshDaily d)

/-- A raise rolls back. -/
def step (op : Op) (s : Store) : Store := settled s (op.run P gov s)

/-! ## What refreshing leaves alone -/

@[simp] theorem refreshDataset_sequences (s : Store) (k : String × String) :
    (s.refreshDataset k).sequences = s.sequences := rfl

@[simp] theorem refreshDataset_attempts (s : Store) (k : String × String) :
    (s.refreshDataset k).providerAttempts = s.providerAttempts := rfl

@[simp] theorem refreshDataset_limiter (s : Store) (k : String × String) :
    (s.refreshDataset k).limiter = s.limiter := rfl

@[simp] theorem refreshDaily_sequences (s : Store) (d : String) :
    (s.refreshDaily d).sequences = s.sequences := rfl

@[simp] theorem refreshDaily_attempts (s : Store) (d : String) :
    (s.refreshDaily d).providerAttempts = s.providerAttempts := rfl

@[simp] theorem refreshDaily_limiter (s : Store) (d : String) :
    (s.refreshDaily d).limiter = s.limiter := rfl

theorem foldl_refreshDataset (ks : List (String × String)) (s : Store) :
    (ks.foldl Store.refreshDataset s).sequences = s.sequences ∧
    (ks.foldl Store.refreshDataset s).providerAttempts = s.providerAttempts ∧
    (ks.foldl Store.refreshDataset s).limiter = s.limiter := by
  induction ks generalizing s with
  | nil => exact ⟨rfl, rfl, rfl⟩
  | cons k ks ih => exact ih (s.refreshDataset k)

@[simp] theorem refreshStatuses_sequences (s : Store) (d : String) :
    (s.refreshStatuses d).sequences = s.sequences := (foldl_refreshDataset _ s).1

@[simp] theorem refreshStatuses_attempts (s : Store) (d : String) :
    (s.refreshStatuses d).providerAttempts = s.providerAttempts := (foldl_refreshDataset _ s).2.1

@[simp] theorem refreshStatuses_limiter (s : Store) (d : String) :
    (s.refreshStatuses d).limiter = s.limiter := (foldl_refreshDataset _ s).2.2

/-! ## Updates -/

variable {P gov}

theorem updateSequences_ok {s t : Store} {p : Sequence → Bool} {f : Sequence → Sequence} {hf}
    (h : s.updateSequences p f hf = .ok t) :
    t = { s with sequences := s.sequences.update p f hf } := by
  obtain ⟨_, _, h⟩ := ok_bind h
  exact ok_pure h

theorem updateAttempts_ok {s t : Store} {p : Attempt → Bool} {f : Attempt → Attempt} {hf}
    (h : s.updateAttempts p f hf = .ok t) :
    t = { s with providerAttempts := s.providerAttempts.update p f hf } := by
  obtain ⟨_, _, h⟩ := ok_bind h
  exact ok_pure h

/-! ## What a sequence keeps -/

/-- A value that is never changed once it is there. -/
def Kept {α : Type} (x y : Option α) : Prop := ∀ a, x = some a → y = some a

theorem Kept.refl {α : Type} (x : Option α) : Kept x x := fun _ h => h

theorem Kept.orElse {α : Type} (x y : Option α) : Kept x (x <|> y) := by
  rintro a rfl
  rfl

/-- One row before and after. -/
structure Sequence.Grows (q r : Sequence) : Prop where
  planned : r.dailyId = q.dailyId ∧ r.planRow = q.planRow
  attempts : q.attempts ≤ r.attempts
  terminal : q.terminalStatus.isSome = true → r.terminalStatus.isSome = true
  closed : q.terminalStatus.isSome = true → r.attempts = q.attempts
  rawRef : Kept q.rawRef r.rawRef
  rawSha256 : Kept q.rawSha256 r.rawSha256
  rawSize : Kept q.rawSize r.rawSize
  prepared : Kept q.prepared r.prepared
  preparedSha256 : Kept q.preparedSha256 r.preparedSha256

theorem Sequence.Grows.refl (q : Sequence) : q.Grows q :=
  ⟨⟨rfl, rfl⟩, le_rfl, id, fun _ => rfl, .refl _, .refl _, .refl _, .refl _, .refl _⟩

theorem Sequence.Grows.trans {q r t : Sequence} (h : q.Grows r) (h' : r.Grows t) : q.Grows t where
  planned := ⟨h'.planned.1.trans h.planned.1, h'.planned.2.trans h.planned.2⟩
  attempts := h.attempts.trans h'.attempts
  terminal ht := h'.terminal (h.terminal ht)
  closed ht := (h'.closed (h.terminal ht)).trans (h.closed ht)
  rawRef a ha := h'.rawRef a (h.rawRef a ha)
  rawSha256 a ha := h'.rawSha256 a (h.rawSha256 a ha)
  rawSize a ha := h'.rawSize a (h.rawSize a ha)
  prepared a ha := h'.prepared a (h.prepared a ha)
  preparedSha256 a ha := h'.preparedSha256 a (h.preparedSha256 a ha)

theorem Sequence.Grows.key {q r : Sequence} (h : q.Grows r) : r.key = q.key := by
  have hsymbol := congrArg PlanRow.symbol h.planned.2
  exact Prod.ext h.planned.1 hsymbol

/-- No sequence is lost, and each grows. -/
def SequencesGrow (s t : Store) : Prop := ∀ q ∈ s.sequences, ∃ r ∈ t.sequences, q.Grows r

theorem SequencesGrow.refl (s : Store) : SequencesGrow s s := fun q hq => ⟨q, hq, .refl q⟩

theorem SequencesGrow.of_eq {s t : Store} (h : t.sequences = s.sequences) : SequencesGrow s t :=
  fun q hq => ⟨q, h ▸ hq, .refl q⟩

theorem SequencesGrow.trans {s t u : Store} (h : SequencesGrow s t) (h' : SequencesGrow t u) :
    SequencesGrow s u := by
  intro q hq
  obtain ⟨r, hr, hgrow⟩ := h q hq
  obtain ⟨v, hv, hgrow'⟩ := h' r hr
  exact ⟨v, hv, hgrow.trans hgrow'⟩

theorem sequencesGrow_update {s t : Store} {p : Sequence → Bool} {f : Sequence → Sequence} {hf}
    (h : s.updateSequences p f hf = .ok t) (hgrow : ∀ q ∈ s.sequences, p q = true → q.Grows (f q)) :
    SequencesGrow s t := by
  intro q hq
  have hmem : (if p q then f q else q) ∈ s.sequences.update p f hf :=
    Table.mem_update.mpr ⟨q, hq, rfl⟩
  rw [updateSequences_ok h]
  refine ⟨_, hmem, ?_⟩
  split
  · rename_i hp
    exact hgrow q hq hp
  · exact .refl q

theorem SequencesGrow.refresh {s t : Store} (h : SequencesGrow s t) (d : String) :
    SequencesGrow s (t.refreshStatuses d) := h.trans (.of_eq (refreshStatuses_sequences t d))

theorem insertSequence_grows (s : Store) (d : String) (row : PlanRow) :
    SequencesGrow s (s.insertSequence d row) := by
  unfold Store.insertSequence
  dsimp only
  split
  · exact .refl s
  · exact fun q hq => ⟨q, Table.mem_insertNew.mpr (Or.inl hq), .refl q⟩

theorem insertRow_grows (s : Store) (d : String) (row : PlanRow) :
    SequencesGrow s (s.insertRow P d row) := insertSequence_grows (s.insertDataset P d row) d row

/-! ## What a statement makes of the rows -/

/-- The columns that `_validate_prepared` reads. -/
structure Sequence.Basis (q r : Sequence) : Prop where
  key : r.key = q.key
  datasetKey : r.datasetKey = q.datasetKey
  sequenceNo : r.sequenceNo = q.sequenceNo
  sequenceCount : r.sequenceCount = q.sequenceCount
  rawRef : r.rawRef = q.rawRef
  rawSha256 : r.rawSha256 = q.rawSha256
  snapshot : r.snapshot = q.snapshot

theorem Sequence.Basis.refl (q : Sequence) : q.Basis q := ⟨rfl, rfl, rfl, rfl, rfl, rfl, rfl⟩

theorem Sequence.Basis.trans {q r t : Sequence} (h : q.Basis r) (h' : r.Basis t) : q.Basis t where
  key := h'.key.trans h.key
  datasetKey := h'.datasetKey.trans h.datasetKey
  sequenceNo := h'.sequenceNo.trans h.sequenceNo
  sequenceCount := h'.sequenceCount.trans h.sequenceCount
  rawRef := h'.rawRef.trans h.rawRef
  rawSha256 := h'.rawSha256.trans h.rawSha256
  snapshot := h'.snapshot.trans h.snapshot

/-- The row after a statement that only moves it on. -/
structure Sequence.Bears (q r : Sequence) : Prop where
  basis : q.Basis r
  attempts : q.attempts ≤ r.attempts
  rawSize : r.rawSize = q.rawSize
  prepared : r.prepared = q.prepared
  preparedSha256 : r.preparedSha256 = q.preparedSha256

theorem Sequence.Bears.refl (q : Sequence) : q.Bears q := ⟨.refl q, le_rfl, rfl, rfl, rfl⟩

theorem Sequence.Bears.trans {q r t : Sequence} (h : q.Bears r) (h' : r.Bears t) : q.Bears t where
  basis := h.basis.trans h'.basis
  attempts := h.attempts.trans h'.attempts
  rawSize := h'.rawSize.trans h.rawSize
  prepared := h'.prepared.trans h.prepared
  preparedSha256 := h'.preparedSha256.trans h.preparedSha256

/-- The rows of `t` are those of `s`, each as `R` allows. -/
def MapsRows (R : Sequence → Sequence → Prop) (s t : Store) : Prop :=
  ∃ g : Sequence → Sequence, (∀ q ∈ s.sequences, R q (g q)) ∧
    ∀ k, t.sequences.find? k = (s.sequences.find? k).map g

section
variable {R : Sequence → Sequence → Prop}

theorem MapsRows.of_eq {s t : Store} (hR : ∀ q, R q q) (h : t.sequences = s.sequences) :
    MapsRows R s t := ⟨id, fun q _ => hR q, fun k => by rw [h, Option.map_id_fun, id]⟩

theorem MapsRows.imp {R' : Sequence → Sequence → Prop} {s t : Store} (h : MapsRows R s t)
    (hR : ∀ q r, R q r → R' q r) : MapsRows R' s t := by
  obtain ⟨g, hg, hfind⟩ := h
  exact ⟨g, fun q hq => hR _ _ (hg q hq), hfind⟩

theorem MapsRows.trans {s t u : Store} (h : MapsRows R s t) (hR : ∀ q r v, R q r → R r v → R q v)
    (h' : MapsRows R t u) : MapsRows R s u := by
  obtain ⟨g, hg, hfind⟩ := h
  obtain ⟨g', hg', hfind'⟩ := h'
  refine ⟨g' ∘ g, fun q hq => hR _ _ _ (hg q hq) (hg' _ ?_), fun k => ?_⟩
  · have hself := hfind q.key
    rw [Table.find?_self hq, Option.map_some] at hself
    exact (Table.find?_eq_some.mp hself).1
  · rw [hfind', hfind, Option.map_map]

theorem mapsRows_update {s t : Store} {p : Sequence → Bool} {f : Sequence → Sequence} {hf}
    (hR : ∀ q, R q q) (h : s.updateSequences p f hf = .ok t)
    (hrows : ∀ q ∈ s.sequences, p q = true → R q (f q)) : MapsRows R s t := by
  have hsequences : t.sequences = s.sequences.update p f hf := by rw [updateSequences_ok h]
  refine ⟨fun q => if p q then f q else q, fun q hq => ?_, fun k => ?_⟩
  · dsimp only
    split
    · rename_i hp
      exact hrows q hq hp
    · exact hR q
  · rw [hsequences, Table.find?_update]

theorem MapsRows.grow {s t : Store} (h : MapsRows R s t) (hR : ∀ q r, R q r → q.Grows r) :
    SequencesGrow s t := by
  obtain ⟨g, hg, hfind⟩ := h
  intro q hq
  have hself := hfind q.key
  rw [Table.find?_self hq, Option.map_some] at hself
  exact ⟨g q, (Table.find?_eq_some.mp hself).1, hR _ _ (hg q hq)⟩

end

/-! ## What an operation does to the audit -/

def Store.attemptCount (s : Store) (k : String × String) : Nat :=
  ((s.sequences.find? k).map (·.attempts)).getD 0

@[simp] theorem attemptCount_refreshStatuses (s : Store) (d : String) (k : String × String) :
    (s.refreshStatuses d).attemptCount k = s.attemptCount k := by
  unfold Store.attemptCount
  rw [refreshStatuses_sequences]

theorem attemptCount_update {s t : Store} {p : Sequence → Bool} {f : Sequence → Sequence} {hf}
    (h : s.updateSequences p f hf = .ok t) (hattempts : ∀ q, (f q).attempts = q.attempts)
    (k : String × String) : t.attemptCount k = s.attemptCount k := by
  unfold Store.attemptCount
  rw [updateSequences_ok h, Table.find?_update, Option.map_map]
  congr 1
  cases s.sequences.find? k with
  | none => rfl
  | some q =>
    simp only [Option.map_some, Function.comp]
    split
    · rw [hattempts]
    · rfl

theorem attemptCount_set {s t : Store} {f : Sequence → Sequence} {k : String × String} {hf}
    {q : Sequence} {n : Nat} (h : s.updateSequences (fun r => r.key == k) f hf = .ok t)
    (hq : s.sequences.find? k = some q) (hn : ∀ r, (f r).attempts = n) (j : String × String) :
    t.attemptCount j = if j = k then n else s.attemptCount j := by
  unfold Store.attemptCount
  rw [updateSequences_ok h, Table.find?_update, Option.map_map]
  by_cases hj : j = k
  · have hkey := (Table.find?_eq_some.mp hq).2
    rw [if_pos hj, hj, hq]
    simp [hkey, hn]
  · rw [if_neg hj]
    congr 1
    cases hfind : s.sequences.find? j with
    | none => rfl
    | some r =>
      have hrk : r.key ≠ k := fun he => hj ((Table.find?_eq_some.mp hfind).2.symm.trans he)
      simp [hrk]

theorem attemptCount_insertSequence (s : Store) (d : String) (row : PlanRow) (k : String × String) :
    (s.insertSequence d row).attemptCount k = s.attemptCount k := by
  unfold Store.insertSequence
  dsimp only
  split
  · rfl
  · unfold Store.attemptCount
    rw [Table.find?_insertNew]
    cases s.sequences.find? k with
    | some q => rfl
    | none =>
      rw [Option.none_or]
      split <;> rfl

/-- An attempt before and after. -/
structure Attempt.Closes (a b : Attempt) : Prop where
  key : b.key = a.key
  createdAt : b.createdAt = a.createdAt
  closed : a.outcome ≠ .started → b = a

theorem Attempt.Closes.refl (a : Attempt) : a.Closes a := ⟨rfl, rfl, fun _ => rfl⟩

theorem Attempt.Closes.trans {a b c : Attempt} (h : a.Closes b) (h' : b.Closes c) : a.Closes c where
  key := h'.key.trans h.key
  createdAt := h'.createdAt.trans h.createdAt
  closed ho := by
    have hba := h.closed ho
    rw [h'.closed (hba ▸ ho), hba]

/-- Started attempts are closed, and nothing else of the audit changes. -/
structure Closes (s t : Store) : Prop where
  attempts : List.Forall₂ Attempt.Closes s.providerAttempts.rows t.providerAttempts.rows
  limiter : t.limiter = s.limiter
  counts : ∀ k, t.attemptCount k = s.attemptCount k

theorem forall₂_closes_refl (rows : List Attempt) : List.Forall₂ Attempt.Closes rows rows :=
  List.forall₂_same.mpr fun a _ => .refl a

theorem forall₂_closes_trans {xs ys zs : List Attempt} (h : List.Forall₂ Attempt.Closes xs ys)
    (h' : List.Forall₂ Attempt.Closes ys zs) : List.Forall₂ Attempt.Closes xs zs := by
  induction h generalizing zs with
  | nil => exact h'
  | @cons a b as bs hab _ ih =>
    obtain ⟨c, cs, hbc, hcs, rfl⟩ := List.forall₂_cons_left_iff.mp h'
    exact .cons (hab.trans hbc) (ih hcs)

theorem Closes.trans {s t u : Store} (h : Closes s t) (h' : Closes t u) : Closes s u where
  attempts := forall₂_closes_trans h.attempts h'.attempts
  limiter := h'.limiter.trans h.limiter
  counts k := (h'.counts k).trans (h.counts k)

theorem Closes.of_eq {s t : Store} (h : t.providerAttempts = s.providerAttempts)
    (hlimiter : t.limiter = s.limiter) (hcounts : ∀ k, t.attemptCount k = s.attemptCount k) :
    Closes s t := ⟨h ▸ forall₂_closes_refl _, hlimiter, hcounts⟩

theorem Closes.refl (s : Store) : Closes s s := .of_eq rfl rfl fun _ => rfl

theorem closes_refresh (s : Store) (d : String) : Closes s (s.refreshStatuses d) :=
  .of_eq (refreshStatuses_attempts s d) (refreshStatuses_limiter s d)
    (attemptCount_refreshStatuses s d)

/-- A statement that updates sequences only, and not their attempts. -/
theorem closes_updateSequences {s t : Store} {p : Sequence → Bool} {f : Sequence → Sequence} {hf}
    (h : s.updateSequences p f hf = .ok t) (hattempts : ∀ q, (f q).attempts = q.attempts) :
    Closes s t := by
  have ht := updateSequences_ok h
  exact .of_eq (by rw [ht]) (by rw [ht]) (attemptCount_update h hattempts)

theorem closes_updateAttempts {s t : Store} {p : Attempt → Bool} {f : Attempt → Attempt} {hf}
    (h : s.updateAttempts p f hf = .ok t) (hp : ∀ a, p a = true → a.outcome = .started)
    (hcreated : ∀ a, (f a).createdAt = a.createdAt) : Closes s t := by
  rw [updateAttempts_ok h]
  refine ⟨?_, rfl, fun _ => rfl⟩
  rw [show (s.providerAttempts.update p f hf).rows =
    s.providerAttempts.rows.map fun a => if p a then f a else a from rfl, List.forall₂_map_right_iff]
  refine List.forall₂_same.mpr fun a _ => ?_
  split
  · rename_i hpa
    exact ⟨hf a, hcreated a, fun ho => absurd (hp a hpa) ho⟩
  · exact .refl a

theorem insertRow_closes (s : Store) (d : String) (row : PlanRow) : Closes s (s.insertRow P d row) := by
  refine .of_eq ?_ ?_ fun k => attemptCount_insertSequence (s.insertDataset P d row) d row k
  all_goals
    unfold Store.insertRow Store.insertSequence
    dsimp only
    split <;> rfl

/-- The readings of one call. -/
structure Reads (gov : Governance) (now : Datetime) (nowText cutoff : UtcTime) : Prop where
  readsNow : utc now = .ok nowText
  readsCutoff : ∃ earlier, shift now (-gov.rollingSeconds) = .ok earlier ∧ utc earlier = .ok cutoff

def purged (s : Store) (cutoff : UtcTime) : List UtcTime :=
  s.limiter.filter fun usedAt => !before usedAt cutoff

/-- A refused attempt: old reservations are purged. -/
structure Refused (s t : Store) (cutoff : UtcTime) : Prop where
  attempts : t.providerAttempts = s.providerAttempts
  limiter : t.limiter = purged s cutoff
  counts : ∀ k, t.attemptCount k = s.attemptCount k

/-- A granted attempt, with what was checked. -/
structure Granted (gov : Governance) (s t : Store) (d y : String) (nowText cutoff : UtcTime) : Prop where
  sequence : ∃ q, s.sequences.find? (d, y) = some q ∧ q.terminalStatus = none
  budget : (s.attemptCount (d, y) : Int) - ((s.attemptsOf d y).filter Attempt.isWait).length <
    gov.maxAttempts
  allowance : ((purged s cutoff).length : Int) -
    (s.providerAttempts.rows.filter fun a => a.isWait && !before a.createdAt cutoff).length <
      gov.maxRequests
  attempts : t.providerAttempts.rows = s.providerAttempts.rows ++
    [⟨d, y, s.attemptCount (d, y) + 1, nowText, .started, none, none⟩]
  limiter : t.limiter = purged s cutoff ++ [nowText]
  counts : ∀ k, t.attemptCount k =
    if k = (d, y) then s.attemptCount (d, y) + 1 else s.attemptCount k

/-- The tables beside the sequences: as they were, or with their statuses refreshed. -/
def Refreshed (dailyId : String) (s t : Store) : Prop :=
  (t.datasetSnapshots = s.datasetSnapshots ∧ t.dailyUpdates = s.dailyUpdates) ∨
    ∃ u : Store, u.datasetSnapshots = s.datasetSnapshots ∧ u.dailyUpdates = s.dailyUpdates ∧
      t = u.refreshStatuses dailyId

/-- Everything a call of `acquire_attempt` can do. -/
theorem acquireAttempt_cases {s t : Store} {d y : String} {now : Datetime} {terminal granted : Bool}
    {n : Nat} (h : s.acquireAttempt d y now gov terminal = .ok (t, granted, n)) :
    MapsRows (fun q r => q.Grows r ∧ q.Bears r) s t ∧ Refreshed d s t ∧
      ∃ nowText cutoff, Reads gov now nowText cutoff ∧
      (granted = false ∧ Refused s t cutoff ∨
        granted = true ∧ n = s.attemptCount (d, y) + 1 ∧ Granted gov s t d y nowText cutoff) := by
  obtain ⟨nowText, hnow, h⟩ := ok_bind h
  obtain ⟨earlier, hearlier, h⟩ := ok_bind h
  obtain ⟨cutoff, hcutoff, h⟩ := ok_bind h
  obtain ⟨q, hq, h⟩ := ok_bind h
  rw [need_ok] at hq
  have hcount : s.attemptCount (d, y) = q.attempts := by
    unfold Store.attemptCount
    rw [show s.sequences.find? (d, y) = some q from hq]
    rfl
  have hreads : Reads gov now nowText cutoff := ⟨hnow, earlier, hearlier, hcutoff⟩
  dsimp only at h
  split at h
  · -- the budget is exhausted and the caller asked for a terminal sequence
    obtain ⟨u, hu, h⟩ := ok_bind h
    cases h
    have hu' := updateSequences_ok hu
    refine ⟨?_, Or.inr ⟨u, by rw [hu'], by rw [hu'], rfl⟩, nowText, cutoff, hreads,
      Or.inl ⟨rfl, ?_, ?_, fun k => ?_⟩⟩
    · have hrows := mapsRows_update (R := fun q r => q.Grows r ∧ q.Bears r)
        (fun q => ⟨.refl q, .refl q⟩) hu fun r _ _ =>
          ⟨⟨⟨rfl, rfl⟩, le_rfl, fun _ => rfl, fun _ => rfl, .refl _, .refl _, .refl _, .refl _, .refl _⟩,
            ⟨rfl, rfl, rfl, rfl, rfl, rfl, rfl⟩, le_rfl, rfl, rfl, rfl⟩
      obtain ⟨g, hg, hfind⟩ := hrows
      exact ⟨g, hg, fun k => by rw [refreshStatuses_sequences, hfind]⟩
    · rw [refreshStatuses_attempts, hu']
    · rw [refreshStatuses_limiter, hu']
      rfl
    · rw [attemptCount_refreshStatuses]
      exact attemptCount_update hu (fun _ => rfl) k
  split at h
  · cases h
    exact ⟨.of_eq (fun q => ⟨.refl q, .refl q⟩) rfl, Or.inl ⟨rfl, rfl⟩, nowText, cutoff, hreads,
      Or.inl ⟨rfl, rfl, rfl, fun _ => rfl⟩⟩
  · rename_i hgranted
    obtain ⟨later, _, h⟩ := ok_bind h
    obtain ⟨lease, _, h⟩ := ok_bind h
    obtain ⟨u, hu, h⟩ := ok_bind h
    obtain ⟨attempts, hattempts, h⟩ := ok_bind h
    cases h
    have hu' := updateSequences_ok hu
    rw [need_ok, hu'] at hattempts
    simp only [Bool.or_eq_true, not_or, Option.isSome_iff_ne_none, ne_eq, not_not,
      decide_eq_true_eq, not_le] at hgranted
    obtain ⟨⟨⟨hopen, hbudget⟩, hallowance⟩, -⟩ := hgranted
    have hrows := mapsRows_update (R := fun q r => q.Grows r ∧ q.Bears r)
      (fun q => ⟨.refl q, .refl q⟩) hu fun r hr hkey => by
        have hrq : r = q := Table.eq_of_key hr (Table.find?_eq_some.mp hq).1
          ((beq_iff_eq.mp hkey).trans (Table.find?_eq_some.mp hq).2.symm)
        subst hrq
        refine ⟨⟨⟨rfl, rfl⟩, Nat.le_succ _, id, fun hterminal => ?_, .refl _, .refl _, .refl _, .refl _,
          .refl _⟩, ⟨rfl, rfl, rfl, rfl, rfl, rfl, rfl⟩, Nat.le_succ _, rfl, rfl, rfl⟩
        rw [hopen] at hterminal
        cases hterminal
    have hset := attemptCount_set hu hq fun _ => rfl
    refine ⟨hrows, Or.inl ⟨by rw [hu'], by rw [hu']⟩, nowText, cutoff, hreads,
      Or.inr ⟨rfl, by rw [hcount], ⟨q, hq, hopen⟩, ?_, hallowance, ?_, ?_, ?_⟩⟩
    · rw [hcount]
      exact hbudget
    · rw [hcount]
      exact Table.insert?_rows hattempts
    · rw [hu']
      rfl
    · rw [hcount]
      exact hset

/-! ## The other operations -/

/-- What an operation other than `acquire_attempt` leaves. -/
structure Quiet (s t : Store) : Prop where
  closes : Closes s t
  grows : SequencesGrow s t

theorem Quiet.refl (s : Store) : Quiet s s := ⟨.refl s, .refl s⟩

theorem Quiet.trans {s t u : Store} (h : Quiet s t) (h' : Quiet t u) : Quiet s u :=
  ⟨h.closes.trans h'.closes, h.grows.trans h'.grows⟩

theorem quiet_refresh (s : Store) (d : String) : Quiet s (s.refreshStatuses d) :=
  ⟨closes_refresh s d, (SequencesGrow.refl s).refresh d⟩

theorem quiet_updateAttempts {s t : Store} {p : Attempt → Bool} {f : Attempt → Attempt} {hf}
    (h : s.updateAttempts p f hf = .ok t) (hp : ∀ a, p a = true → a.outcome = .started)
    (hcreated : ∀ a, (f a).createdAt = a.createdAt) : Quiet s t :=
  ⟨closes_updateAttempts h hp hcreated, .of_eq (by rw [updateAttempts_ok h])⟩

theorem quiet_updateSequences {s t : Store} {p : Sequence → Bool} {f : Sequence → Sequence} {hf}
    (h : s.updateSequences p f hf = .ok t) (hattempts : ∀ q, (f q).attempts = q.attempts)
    (hgrow : ∀ q, p q = true → q.Grows (f q)) : Quiet s t :=
  ⟨closes_updateSequences h hattempts, sequencesGrow_update h fun q _ => hgrow q⟩

theorem foldl_insertRow_quiet (rows : List PlanRow) (s : Store) (d : String) :
    Quiet s (rows.foldl (fun s row => s.insertRow P d row) s) := by
  induction rows generalizing s with
  | nil => exact .refl s
  | cons row rows ih =>
    exact Quiet.trans ⟨insertRow_closes s d row, insertRow_grows s d row⟩ (ih (s.insertRow P d row))

theorem quiet_aside (s : Store) (daily : Table DailyUpdate.dailyId)
    (datasets : Table DatasetSnapshot.key) :
    Quiet s { s with dailyUpdates := daily, datasetSnapshots := datasets } :=
  ⟨.of_eq rfl rfl fun _ => rfl, .of_eq rfl⟩

theorem ensurePlan_quiet {s t : Store} {plan : Plan} (h : s.ensurePlan P plan = .ok t) : Quiet s t := by
  obtain ⟨_, _, h⟩ := ok_bind h
  obtain ⟨_, _, h⟩ := ok_bind h
  cases h
  refine Quiet.trans ?_ (quiet_refresh _ plan.dailyId)
  exact (quiet_aside s _ s.datasetSnapshots).trans (foldl_insertRow_quiet plan.rows _ plan.dailyId)

theorem open_started {k : String × String × Nat} {a : Attempt} (h : Attempt.open k a = true) :
    a.outcome = .started := by
  unfold Attempt.open at h
  rw [Bool.and_eq_true, beq_iff_eq, beq_iff_eq] at h
  exact h.2

theorem orElse_isSome {α : Type} {x y : Option α} (h : y.isSome = true) : (x <|> y).isSome = true := by
  cases x with
  | none => exact h
  | some a => rfl

theorem finishAttempt_quiet {s t : Store} {d y : String} {n : Nat} {outcome : Outcome} {code : String}
    {retryable : Bool} {reason : Option String}
    (h : s.finishAttempt d y n outcome code retryable reason = .ok t) : Quiet s t := by
  obtain ⟨reason, _, h⟩ := ok_bind h
  obtain ⟨u, hu, h⟩ := ok_bind h
  obtain ⟨_, _, h⟩ := ok_bind h
  obtain ⟨v, hv, h⟩ := ok_bind h
  cases h
  have hsequences := quiet_updateSequences hv (fun _ => rfl) fun q _ =>
    ⟨⟨rfl, rfl⟩, le_rfl, fun hq => orElse_isSome hq, fun _ => rfl, .refl _, .refl _, .refl _, .refl _,
      .refl _⟩
  exact ((quiet_updateAttempts hu (fun _ => open_started) fun _ => rfl).trans hsequences).trans
    (quiet_refresh v d)

theorem completeAttempt_quiet {s t : Store} {d y : String} {n : Nat} {snapshot : Bytes}
    (h : s.completeAttemptWithSnapshot d y n snapshot = .ok t) : Quiet s t := by
  obtain ⟨_, _, h⟩ := ok_bind h
  obtain ⟨u, hu, h⟩ := ok_bind h
  obtain ⟨_, _, h⟩ := ok_bind h
  obtain ⟨v, hv, h⟩ := ok_bind h
  cases h
  have hsequences := quiet_updateSequences hv (fun _ => rfl) fun q _ =>
    ⟨⟨rfl, rfl⟩, le_rfl, id, fun _ => rfl, .refl _, .refl _, .refl _, .refl _, .refl _⟩
  exact ((quiet_updateAttempts hu (fun _ => open_started) fun _ => rfl).trans hsequences).trans
    (quiet_refresh v d)

theorem markCutoff_quiet {s t : Store} {d : String} {n : Nat} (h : s.markCutoff d = .ok (t, n)) :
    Quiet s t := by
  obtain ⟨u, hu, h⟩ := ok_bind h
  obtain ⟨v, hv, h⟩ := ok_bind h
  have hattempts := quiet_updateAttempts hu
    (fun a ha => by
      rw [Bool.and_eq_true, beq_iff_eq, beq_iff_eq] at ha
      exact ha.2) fun _ => rfl
  have hsequences := quiet_updateSequences hv (fun _ => rfl) fun q _ =>
    ⟨⟨rfl, rfl⟩, le_rfl, fun _ => rfl, fun _ => rfl, .refl _, .refl _, .refl _, .refl _, .refl _⟩
  have hquiet := hattempts.trans hsequences
  split at h
  · cases h
    exact hquiet
  · cases h
    exact hquiet.trans (quiet_refresh v d)

theorem markTerminal_quiet {s t : Store} {d y code : String} {reason : Option String}
    (h : s.markTerminal d y code reason = .ok t) : Quiet s t := by
  obtain ⟨_, _, h⟩ := ok_bind h
  obtain ⟨_, _, h⟩ := ok_bind h
  exact quiet_updateSequences h (fun _ => rfl) fun q _ =>
    ⟨⟨rfl, rfl⟩, le_rfl, fun _ => rfl, fun _ => rfl, .refl _, .refl _, .refl _, .refl _, .refl _⟩

theorem beginRaw_quiet {s t : Store} {d y : String} {snapshot : Bytes} {intent : Intent}
    (h : s.beginRaw P d y snapshot = .ok (t, intent)) : Quiet s t := by
  obtain ⟨q, hq, h⟩ := ok_bind h
  rw [need_ok] at hq
  split at h
  · rename_i hnone _
    obtain ⟨u, hu, h⟩ := ok_bind h
    cases h
    refine ⟨closes_updateSequences hu fun _ => rfl, sequencesGrow_update hu fun r hr hkey => ?_⟩
    have hrq : r = q := Table.eq_of_key hr (Table.find?_eq_some.mp hq).1
      ((beq_iff_eq.mp hkey).trans (Table.find?_eq_some.mp hq).2.symm)
    subst hrq
    refine ⟨⟨rfl, rfl⟩, le_rfl, id, fun _ => rfl, .refl _, fun a ha => ?_, .refl _, .refl _, .refl _⟩
    rw [hnone] at ha
    cases ha
  · obtain ⟨_, _, h⟩ := ok_bind h
    cases h
    exact .refl s
  · obtain ⟨_, _, h⟩ := ok_bind h
    cases h
    exact .refl s
  · cases h

theorem saveRaw_quiet {s t : Store} {d y ref sha256 : String} {n : Nat}
    (h : s.saveRaw d y ref sha256 n = .ok t) : Quiet s t := by
  obtain ⟨_, _, h⟩ := ok_bind h
  exact quiet_updateSequences h (fun _ => rfl) fun q _ =>
    ⟨⟨rfl, rfl⟩, le_rfl, id, fun _ => rfl, .orElse _ _, .orElse _ _, .orElse _ _, .refl _, .refl _⟩

theorem savePrepared_quiet {s t : Store} {d y : String} {body : Bytes}
    (h : s.savePrepared P d y body = .ok t) : Quiet s t := by
  obtain ⟨_, _, h⟩ := ok_bind h
  obtain ⟨_, _, h⟩ := ok_bind h
  obtain ⟨_, _, h⟩ := ok_bind h
  exact quiet_updateSequences h (fun _ => rfl) fun q _ =>
    ⟨⟨rfl, rfl⟩, le_rfl, id, fun _ => rfl, .refl _, .refl _, .refl _, .orElse _ _, .orElse _ _⟩

theorem saveSource_quiet {s t : Store} {d y attemptId runId : String} {terminal : Option String}
    (h : s.saveSource d y attemptId runId terminal = .ok t) : Quiet s t :=
  quiet_updateSequences h (fun _ => rfl) fun _ _ =>
    ⟨⟨rfl, rfl⟩, le_rfl, fun hq => orElse_isSome hq, fun _ => rfl, .refl _, .refl _, .refl _, .refl _,
      .refl _⟩

theorem markPreflight_quiet {s t : Store} {d y : String} (h : s.markPreflightValidated d y = .ok t) :
    Quiet s t := by
  obtain ⟨_, _, h⟩ := ok_bind h
  obtain ⟨_, _, h⟩ := ok_bind h
  cases h
  exact quiet_aside s _ s.datasetSnapshots

/-- The operation is a call of `acquire_attempt`. -/
def Op.clock : Op → Option Datetime
  | .acquireAttempt _ _ now _ => some now
  | _ => none

theorem run_quiet {s t : Store} {op : Op} (hop : op.clock = none) (h : op.run P gov s = .ok t) :
    Quiet s t := by
  cases op with
  | ensure plan => exact ensurePlan_quiet h
  | acquireAttempt d y now terminal => cases hop
  | finishAttempt d y n outcome code retryable reason => exact finishAttempt_quiet h
  | completeAttempt d y n snapshot => exact completeAttempt_quiet h
  | markCutoff d =>
    obtain ⟨n, h⟩ := map_fst_ok h
    exact markCutoff_quiet h
  | markTerminal d y code reason => exact markTerminal_quiet h
  | beginRaw d y snapshot =>
    obtain ⟨intent, h⟩ := map_fst_ok h
    exact beginRaw_quiet h
  | saveRaw d y ref sha256 size => exact saveRaw_quiet h
  | savePrepared d y body => exact savePrepared_quiet h
  | saveSource d y attemptId runId terminal => exact saveSource_quiet h
  | markPreflightValidated d y => exact markPreflight_quiet h
  | refreshDataset key =>
    cases h
    exact quiet_aside s s.dailyUpdates _
  | refreshDaily d =>
    cases h
    exact quiet_aside s _ s.datasetSnapshots

/-! ## Counting -/

theorem forall₂_attemptsOf {xs ys : List Attempt} (h : List.Forall₂ Attempt.Closes xs ys)
    (d y : String) : List.Forall₂ Attempt.Closes (xs.filter (Attempt.of d y))
      (ys.filter (Attempt.of d y)) := by
  induction h with
  | nil => exact .nil
  | @cons a b as bs hab _ ih =>
    have hof : Attempt.of d y b = Attempt.of d y a := by
      have hdaily : b.dailyId = a.dailyId := congrArg (·.1) hab.key
      have hsymbol : b.symbol = a.symbol := congrArg (·.2.1) hab.key
      unfold Attempt.of
      rw [hdaily, hsymbol]
    rw [List.filter_cons, List.filter_cons, hof]
    split
    · exact .cons hab ih
    · exact ih

theorem closes_attemptsOf {s t : Store} (h : Closes s t) (d y : String) :
    List.Forall₂ Attempt.Closes (s.attemptsOf d y) (t.attemptsOf d y) :=
  forall₂_attemptsOf h.attempts d y

/-- A wait stays a wait. -/
theorem Attempt.Closes.isWait {a b : Attempt} (h : a.Closes b) (hw : a.isWait = true) :
    b.isWait = true := by
  have hclosed : a.outcome ≠ .started := by
    intro ho
    simp [Attempt.isWait, ho] at hw
  rw [h.closed hclosed]
  exact hw

/-- What spends the allowance can only become less. -/
theorem forall₂_spent_le {xs ys : List Attempt} (h : List.Forall₂ Attempt.Closes xs ys)
    {p : Attempt → Bool} (hp : ∀ a b, a.Closes b → p b = true → p a = true) :
    (ys.filter fun a => p a && !a.isWait).length ≤ (xs.filter fun a => p a && !a.isWait).length := by
  induction h with
  | nil => exact le_rfl
  | @cons a b as bs hab _ ih =>
    rw [List.filter_cons, List.filter_cons]
    by_cases hb : (p b && !b.isWait) = true
    · have ha : (p a && !a.isWait) = true := by
        rw [Bool.and_eq_true, Bool.not_eq_true', ← Bool.not_eq_true] at hb ⊢
        exact ⟨hp a b hab hb.1, fun hw => hb.2 (hab.isWait hw)⟩
      rw [if_pos hb, if_pos ha]
      exact Nat.succ_le_succ ih
    · rw [if_neg hb]
      split
      · exact ih.trans (Nat.le_succ _)
      · exact ih

/-! ## The audit of a run -/

/-- The attempts of every sequence are numbered from one, and those that are not proven waits
are within the budget. -/
structure Audited (gov : Governance) (s : Store) : Prop where
  numbered : ∀ d y, (s.attemptsOf d y).map (·.attemptNo) = List.range' 1 (s.attemptCount (d, y))
  budget : ∀ d y, s.budgetUsed d y ≤ gov.maxAttempts

theorem audited_empty : Audited gov .empty := ⟨fun _ _ => rfl, fun _ _ => Nat.zero_le _⟩

/-- The two ways the source counts the budget are one. -/
theorem Audited.budgetUsed {s : Store} (h : Audited gov s) (d y : String) :
    (s.attemptCount (d, y) : Int) - ((s.attemptsOf d y).filter Attempt.isWait).length =
      s.budgetUsed d y := by
  have hlength := congrArg List.length (h.numbered d y)
  rw [List.length_map, List.length_range'] at hlength
  have hsplit := List.length_eq_length_filter_add (l := s.attemptsOf d y) Attempt.isWait
  unfold Store.budgetUsed
  omega

theorem forall₂_attemptNo {xs ys : List Attempt} (h : List.Forall₂ Attempt.Closes xs ys) :
    ys.map (·.attemptNo) = xs.map (·.attemptNo) := by
  induction h with
  | nil => rfl
  | @cons a b as bs hab _ ih =>
    have hnumber : b.attemptNo = a.attemptNo := congrArg (·.2.2) hab.key
    rw [List.map_cons, List.map_cons, hnumber, ih]

theorem Audited.closes {s t : Store} (h : Audited gov s) (hc : Closes s t) : Audited gov t where
  numbered d y := by
    rw [forall₂_attemptNo (closes_attemptsOf hc d y), h.numbered, hc.counts]
  budget d y := by
    have hle := forall₂_spent_le (closes_attemptsOf hc d y) (p := fun _ => true) fun _ _ _ _ => rfl
    simp only [Bool.true_and] at hle
    exact hle.trans (h.budget d y)

theorem Audited.refused {s t : Store} {cutoff : UtcTime} (h : Audited gov s) (hr : Refused s t cutoff) :
    Audited gov t where
  numbered d y := by
    rw [hr.counts, ← h.numbered]
    unfold Store.attemptsOf
    rw [hr.attempts]
  budget d y := by
    have hb := h.budget d y
    unfold Store.budgetUsed Store.attemptsOf at hb ⊢
    rw [hr.attempts]
    exact hb

theorem attemptsOf_granted {s t : Store} {d y : String} {nowText cutoff : UtcTime}
    (hg : Granted gov s t d y nowText cutoff) (d' y' : String) :
    t.attemptsOf d' y' = s.attemptsOf d' y' ++
      if (d', y') = (d, y) then
        [⟨d, y, s.attemptCount (d, y) + 1, nowText, .started, none, none⟩] else [] := by
  unfold Store.attemptsOf
  rw [hg.attempts, List.filter_append]
  congr 1
  by_cases hk : (d', y') = (d, y)
  · rw [if_pos hk, List.filter_cons_of_pos (by simp [Attempt.of, hk]), List.filter_nil]
  · rw [if_neg hk, List.filter_cons_of_neg fun h => hk (of_decide_eq_true h).symm, List.filter_nil]

theorem Audited.granted {s t : Store} {d y : String} {nowText cutoff : UtcTime}
    (h : Audited gov s) (hg : Granted gov s t d y nowText cutoff) : Audited gov t where
  numbered d' y' := by
    rw [attemptsOf_granted hg, hg.counts, List.map_append, h.numbered]
    by_cases hk : (d', y') = (d, y)
    · rw [if_pos hk, if_pos hk, hk, List.range'_1_concat, List.map_singleton, Nat.add_comm 1]
    · rw [if_neg hk, if_neg hk, List.map_nil, List.append_nil]
  budget d' y' := by
    unfold Store.budgetUsed
    rw [attemptsOf_granted hg, List.filter_append, List.length_append]
    by_cases hk : (d', y') = (d, y)
    · obtain ⟨rfl, rfl⟩ := Prod.mk.inj hk
      have hbudget := hg.budget
      rw [h.budgetUsed] at hbudget
      unfold Store.budgetUsed at hbudget
      rw [if_pos hk, List.filter_cons_of_pos rfl, List.filter_nil, List.length_singleton]
      omega
    · rw [if_neg hk]
      exact h.budget d' y'

theorem audited_step {s : Store} (op : Op) (h : Audited gov s) : Audited gov (step P gov op s) := by
  unfold step
  cases hrun : op.run P gov s with
  | error e => exact h
  | ok t =>
    cases hop : op.clock with
    | none => exact h.closes (run_quiet hop hrun).closes
    | some now =>
      cases op with
      | acquireAttempt d y now terminal =>
        obtain ⟨⟨granted, n⟩, hrun⟩ := map_fst_ok hrun
        obtain ⟨-, -, nowText, cutoff, -, ⟨-, hr⟩ | ⟨-, -, hg⟩⟩ := acquireAttempt_cases hrun
        · exact h.refused hr
        · exact h.granted hg
      | _ => cases hop

/-- Any statements of any processes, refused ones too. -/
def Runs (P : Platform) (gov : Governance) : Store → Store → Prop :=
  StepsIf (step P gov) fun _ _ => True

theorem audited_of_run {s : Store} (h : Runs P gov .empty s) : Audited gov s :=
  StepsIf.inv (fun _ op ha _ => audited_step op ha) h audited_empty

/-- One operation, seen by the attempts and sequences that are there. -/
theorem step_keeps (op : Op) (s : Store) :
    SequencesGrow s (step P gov op s) ∧ ∀ a ∈ s.providerAttempts,
      ∃ b ∈ (step P gov op s).providerAttempts, a.Closes b := by
  have hsame : ∀ t : Store, t.providerAttempts = s.providerAttempts →
      ∀ a ∈ s.providerAttempts, ∃ b ∈ t.providerAttempts, a.Closes b :=
    fun t ht a ha => ⟨a, ht ▸ ha, .refl a⟩
  unfold step
  cases hrun : op.run P gov s with
  | error e => exact ⟨.refl s, hsame s rfl⟩
  | ok t =>
    change SequencesGrow s t ∧ _
    cases hop : op.clock with
    | none =>
      obtain ⟨hcloses, hgrows⟩ := run_quiet hop hrun
      refine ⟨hgrows, fun a ha => ?_⟩
      obtain ⟨i, hi, hget⟩ := List.getElem_of_mem ha
      have hlength := hcloses.attempts.length_eq
      refine ⟨t.providerAttempts.rows[i], List.getElem_mem _, ?_⟩
      rw [← hget]
      exact (List.forall₂_iff_get.mp hcloses.attempts).2 i hi (hlength ▸ hi)
    | some now =>
      cases op with
      | acquireAttempt d y now terminal =>
        obtain ⟨⟨granted, n⟩, hrun⟩ := map_fst_ok hrun
        obtain ⟨hrows, -, nowText, cutoff, -, ⟨-, hr⟩ | ⟨-, -, hg⟩⟩ := acquireAttempt_cases hrun
        all_goals have hgrows := hrows.grow fun _ _ h => h.1
        · exact ⟨hgrows, hsame t hr.attempts⟩
        · refine ⟨hgrows, fun a ha => ⟨a, ?_, .refl a⟩⟩
          exact Table.mem_def.mpr (hg.attempts ▸ List.mem_append_left _ ha)
      | _ => cases hop

/-- The limits that are reviewed. -/
def reviewed : Governance := ⟨50, 60, 3⟩

theorem plain_unread (u u' : DailyUpdate) (d d' : DatasetSnapshot) (q q' : Sequence) (body : Bytes)
    (_ : u.targetDate = u'.targetDate) (_ : u.universeId = u'.universeId)
    (_ : u.dailyUpdateId = u'.dailyUpdateId) (_ : d.snapshotId = d'.snapshotId) (_ : q.key = q'.key)
    (_ : q.datasetKey = q'.datasetKey) (_ : q.sequenceNo = q'.sequenceNo)
    (_ : q.sequenceCount = q'.sequenceCount) (href : q.rawRef = q'.rawRef)
    (_ : q.rawSha256 = q'.rawSha256) (_ : q.snapshot = q'.snapshot) :
    (q.rawRef.isSome && !body.isEmpty) = (q'.rawRef.isSome && !body.isEmpty) := by rw [href]

/-- `hashlib.sha256(bytes([1, 2, 3])).hexdigest()`. -/
def pilotDigest : String := "039058c6f2c0cb492c533b0a4d14ef77cc0f78abccced5287d84a1a2011cfb81"

/-- A request for the source, as the source reads its fields. -/
def pilotRequest : Bytes :=
  ("\x7b\"idempotency_key\":\"u:2330\",\"dataset_key\":\"tw_equity_minute\"," ++
    "\"schema_id\":\"market_minute\",\"schema_version\":1\x7d").toList.map fun c => UInt8.ofNat c.toNat

/-- `hashlib.sha256` of it. -/
def requestDigest : String := "c72c7d66ba25185c7072e6ff513f018117852653080cc609c77bf1aaf367ccdb"

theorem plain_hexdigest (b : Bytes) :
    (if b = pilotRequest then requestDigest else pilotDigest).length = 64 ∧
      (if b = pilotRequest then requestDigest else pilotDigest).toList.all hexDigits.contains = true := by
  split <;> decide

/-- Two digests, and any request with a raw object is prepared well. -/
def plainPlatform : Platform where
  sha256 b := if b = pilotRequest then requestDigest else pilotDigest
  hexdigest := plain_hexdigest
  stableId parts := String.join parts
  deliverable _ := true
  validPrepared _ _ q body := q.rawRef.isSome && !body.isEmpty
  unread := plain_unread

theorem pilotDay_valid :
    (1 ≤ 2026 ∧ 2026 ≤ 9999) ∧ (1 ≤ 9 ∧ 9 ≤ 12) ∧ 1 ≤ 21 ∧ 21 ≤ monthDays 2026 9 := by
  decide

def pilotDay : CivilDate := ⟨2026, 9, 21, pilotDay_valid⟩

theorem pilotTime_valid (minute : Nat) (h : minute < 60) :
    23400 + 60 * minute < 86400 ∧ 0 < 1000000 := by omega

/-- Half past two in Taipei and some minutes, in UTC. -/
def pilotTime (minute : Nat) (h : minute < 60) : Datetime :=
  ⟨⟨pilotDay, 23400 + 60 * minute, 0, pilotTime_valid minute h⟩, false, some Scheduler.utc⟩

def pilotPlan : Plan :=
  ⟨"u:2026-09-21", pilotDay, "u", "daily", [⟨"2330", "tw_equity_minute", 1, 1⟩], pilotDay⟩

/-- A first attempt waits for the source, and the second has a snapshot. -/
def pilotOps : List Op :=
  [.ensure pilotPlan,
    .acquireAttempt "u:2026-09-21" "2330" (pilotTime 0 (by decide)) true,
    .finishAttempt "u:2026-09-21" "2330" 1 .waiting "SOURCE_WAIT" true none,
    .acquireAttempt "u:2026-09-21" "2330" (pilotTime 1 (by decide)) true,
    .completeAttempt "u:2026-09-21" "2330" 2 [1, 2, 3]]

def pilotStore : Store := runAll (step plainPlatform reviewed) pilotOps .empty

end FinDB.Staging
