import FinDB.Staging.Coordinator

/-! # What a sequence has in custody

The snapshot, the raw object and the prepared request of a sequence follow from each other, and
the calls that left the machine are told from them. -/
namespace FinDB.Staging
open FinDB.Lib
open FinDB.Scheduler (Datetime)

/-! ## The calls of a sequence -/

def Event.fetchOf (k : String × String) : Event → Option Nat
  | .fetch k' n => if k' = k then some n else none
  | _ => none

def Event.uploadOf (k : String × String) : Event → Option Bytes
  | .upload k' snap => if k' = k then some snap else none
  | _ => none

def Event.deliveryOf (k : String × String) : Event → Option Bytes
  | .deliver k' body => if k' = k then some body else none
  | _ => none

def fetches (log : List Event) (k : String × String) : List Nat := log.filterMap (Event.fetchOf k)

def uploads (log : List Event) (k : String × String) : List Bytes := log.filterMap (Event.uploadOf k)

def deliveries (log : List Event) (k : String × String) : List Bytes :=
  log.filterMap (Event.deliveryOf k)

variable {P : Platform} {gov : Governance}

/-! ## The columns of a row -/

/-- The columns of a row agree with each other and with the calls. -/
structure Sequence.Custody (P : Platform) (log : List Event) (q : Sequence) : Prop where
  digest : ∀ h, q.rawSha256 = some h → ∃ snap, q.snapshot = some snap ∧ h = P.sha256 snap
  size : ∀ n, q.rawSize = some n → ∃ snap, q.snapshot = some snap ∧ n = snap.length
  raw : q.rawRef.isSome = true → q.rawSha256.isSome = true ∧ q.rawSize.isSome = true
  ref : ∀ r, q.rawRef = some r → r.length ≤ 2048
  prepared : ∀ b, q.prepared = some b → q.preparedSha256 = some (P.sha256 b)
  unprepared : q.prepared = none → q.preparedSha256 = none
  basis : q.prepared.isSome = true → q.rawRef.isSome = true ∧ q.rawSha256.isSome = true
  uploaded : ∀ snap ∈ uploads log q.key, q.snapshot = some snap ∧ q.rawSha256.isSome = true
  once : (uploads log q.key).length ≤ 1
  delivered : ∀ b ∈ deliveries log q.key, q.prepared = some b
  fetched : (fetches log q.key).Pairwise (· < ·) ∧ ∀ n ∈ fetches log q.key, 1 ≤ n ∧ n ≤ q.attempts

theorem Sequence.Custody.bears {q r : Sequence} {log : List Event} (h : q.Custody P log)
    (hr : q.Bears r) : r.Custody P log where
  digest := by
    rw [hr.basis.rawSha256, hr.basis.snapshot]
    exact h.digest
  size := by
    rw [hr.rawSize, hr.basis.snapshot]
    exact h.size
  raw := by
    rw [hr.basis.rawRef, hr.basis.rawSha256, hr.rawSize]
    exact h.raw
  ref := by
    rw [hr.basis.rawRef]
    exact h.ref
  prepared := by
    rw [hr.prepared, hr.preparedSha256]
    exact h.prepared
  unprepared := by
    rw [hr.prepared, hr.preparedSha256]
    exact h.unprepared
  basis := by
    rw [hr.prepared, hr.basis.rawRef, hr.basis.rawSha256]
    exact h.basis
  uploaded := by
    rw [hr.basis.key, hr.basis.snapshot, hr.basis.rawSha256]
    exact h.uploaded
  once := by
    rw [hr.basis.key]
    exact h.once
  delivered := by
    rw [hr.basis.key, hr.prepared]
    exact h.delivered
  fetched := by
    rw [hr.basis.key]
    exact ⟨h.fetched.1, fun n hn => ⟨(h.fetched.2 n hn).1, (h.fetched.2 n hn).2.trans hr.attempts⟩⟩

/-- A row that was planned and nothing else. -/
theorem custody_fresh {q : Sequence} {log : List Event} (h : q.untouched = true)
    (hf : fetches log q.key = []) (hu : uploads log q.key = []) (hd : deliveries log q.key = []) :
    q.Custody P log := by
  unfold Sequence.untouched at h
  simp only [Bool.and_eq_true, beq_iff_eq, Option.isNone_iff_eq_none] at h
  obtain ⟨⟨⟨⟨⟨⟨⟨⟨⟨⟨⟨⟨hattempts, -⟩, hsnapshot⟩, href⟩, hsha⟩, hsize⟩, hprepared⟩, hprepsha⟩, -⟩, -⟩,
    -⟩, -⟩, -⟩ := h
  constructor <;> simp [hattempts, hsnapshot, href, hsha, hsize, hprepared, hprepsha, hf, hu, hd]

/-! ## The tables beside the sequences -/

/-- Data sets and updates are kept, but for their statuses. -/
structure Extends (s t : Store) : Prop where
  datasets : ∀ k r, s.datasetSnapshots.find? k = some r →
    ∃ r', t.datasetSnapshots.find? k = some r' ∧ r'.snapshotId = r.snapshotId
  dailies : ∀ k u, s.dailyUpdates.find? k = some u → ∃ u', t.dailyUpdates.find? k = some u' ∧
    u'.identity = u.identity

theorem Extends.refl (s : Store) : Extends s s :=
  ⟨fun _ r h => ⟨r, h, rfl⟩, fun _ u h => ⟨u, h, rfl⟩⟩

theorem Extends.of_eq {s t : Store} (hd : t.datasetSnapshots = s.datasetSnapshots)
    (hu : t.dailyUpdates = s.dailyUpdates) : Extends s t :=
  ⟨fun _ r h => ⟨r, hd ▸ h, rfl⟩, fun _ u h => ⟨u, hu ▸ h, rfl⟩⟩

theorem Extends.trans {s t u : Store} (h : Extends s t) (h' : Extends t u) : Extends s u where
  datasets k r hr := by
    obtain ⟨r', hr', he⟩ := h.datasets k r hr
    obtain ⟨r'', hr'', he'⟩ := h'.datasets k r' hr'
    exact ⟨r'', hr'', he'.trans he⟩
  dailies k v hv := by
    obtain ⟨v', hv', he⟩ := h.dailies k v hv
    obtain ⟨v'', hv'', he'⟩ := h'.dailies k v' hv'
    exact ⟨v'', hv'', he'.trans he⟩

theorem extends_refreshDataset (s : Store) (k : String × String) : Extends s (s.refreshDataset k) where
  datasets _ _ h := by
    refine Table.find?_modify_col ?_ ?_ h
    all_goals exact fun _ => rfl
  dailies _ u h := ⟨u, h, rfl⟩

theorem extends_refreshDaily (s : Store) (d : String) : Extends s (s.refreshDaily d) where
  datasets _ r h := ⟨r, h, rfl⟩
  dailies _ _ h := by
    refine Table.find?_modify_col ?_ ?_ h
    all_goals exact fun _ => rfl

theorem extends_refreshStatuses (s : Store) (d : String) : Extends s (s.refreshStatuses d) := by
  have hfold : ∀ (ks : List (String × String)) (s : Store),
      Extends s (ks.foldl Store.refreshDataset s) := by
    intro ks
    induction ks with
    | nil => exact Extends.refl
    | cons k ks ih => exact fun s => (extends_refreshDataset s k).trans (ih _)
  exact (hfold _ s).trans (extends_refreshDaily _ d)

/-- A prepared request stays valid while its basis stays. -/
theorem validatePrepared_keeps {s t : Store} {d y : String} {body : Bytes} (hext : Extends s t)
    (hrow : ∀ q, s.sequences.find? (d, y) = some q →
      ∃ r, t.sequences.find? (d, y) = some r ∧ q.Basis r)
    (h : s.validatePrepared P d y body = true) : t.validatePrepared P d y body = true := by
  unfold Store.validatePrepared at h ⊢
  cases hq : s.sequences.find? (d, y) with
  | none =>
    rw [hq] at h
    cases h
  | some q =>
  obtain ⟨r, hr, hbasis⟩ := hrow q hq
  rw [hq] at h
  rw [hr]
  simp only [Option.bind_eq_bind, Option.bind_some] at h ⊢
  rw [hbasis.datasetKey]
  cases hds : s.datasetSnapshots.find? (d, q.datasetKey) with
  | none =>
    rw [hds] at h
    cases h
  | some ds =>
  obtain ⟨ds', hds', hid⟩ := hext.datasets _ _ hds
  rw [hds] at h
  rw [hds']
  cases hu : s.dailyUpdates.find? d with
  | none =>
    rw [hu] at h
    cases h
  | some u =>
  obtain ⟨u', hu', hidentity⟩ := hext.dailies _ _ hu
  rw [hu] at h
  rw [hu']
  simp only [Option.bind_some, Option.pure_def, Option.getD_some] at h ⊢
  rw [← h]
  have htarget : u'.targetDate = u.targetDate := congrArg (·.1) hidentity
  have huniverse : u'.universeId = u.universeId := congrArg (·.2.1) hidentity
  have hdaily : u'.dailyUpdateId = u.dailyUpdateId := congrArg (·.2.2.1) hidentity
  exact P.unread u' u ds' ds r q body htarget huniverse hdaily hid hbasis.key hbasis.datasetKey
    hbasis.sequenceNo hbasis.sequenceCount hbasis.rawRef hbasis.rawSha256 hbasis.snapshot

/-! ## The invariant -/

/-- Sequences with the snapshot they have and the calls of the provider it took. -/
abbrev Frozen := List ((String × String) × Bytes × List Nat)

structure Held (P : Platform) (gov : Governance) (F : Frozen) (d : Disk) : Prop where
  audited : Audited gov d.store
  rows : ∀ q ∈ d.store.sequences, q.Custody P d.log
  strangers : ∀ k, d.store.sequences.find? k = none →
    fetches d.log k = [] ∧ uploads d.log k = [] ∧ deliveries d.log k = []
  dated : ∀ u ∈ d.store.dailyUpdates, validTargetDate u.targetDate u.executionDate = true
  valid : ∀ q ∈ d.store.sequences, ∀ b, q.prepared = some b →
    d.store.validatePrepared P q.dailyId q.symbol b = true
  frozen : ∀ e ∈ F, (∃ q, d.store.sequences.find? e.1 = some q ∧ q.snapshot = some e.2.1) ∧
    fetches d.log e.1 = e.2.2

variable {F : Frozen}

theorem held_empty : Held P gov [] ⟨.empty, []⟩ where
  audited := audited_empty
  rows _ hq := absurd hq (Table.not_mem_empty _)
  strangers _ _ := ⟨rfl, rfl, rfl⟩
  dated _ hu := absurd hu (Table.not_mem_empty _)
  valid _ hq := absurd hq (Table.not_mem_empty _)
  frozen _ he := absurd he List.not_mem_nil

/-- A statement that only moves its rows on, and keeps the tables beside them. -/
structure Carries (s t : Store) : Prop where
  rows : MapsRows Sequence.Bears s t
  ext : Extends s t
  dated : ∀ u ∈ t.dailyUpdates, ∃ v ∈ s.dailyUpdates,
    u.targetDate = v.targetDate ∧ u.executionDate = v.executionDate

theorem Carries.trans {s t u : Store} (h : Carries s t) (h' : Carries t u) : Carries s u where
  rows := h.rows.trans (fun _ _ _ => Sequence.Bears.trans) h'.rows
  ext := h.ext.trans h'.ext
  dated w hw := by
    obtain ⟨v, hv, htarget, hexecution⟩ := h'.dated w hw
    obtain ⟨x, hx, htarget', hexecution'⟩ := h.dated v hv
    exact ⟨x, hx, htarget.trans htarget', hexecution.trans hexecution'⟩

/-- The tables beside the sequences stay as they are. -/
theorem Carries.of_rows {s t : Store} (h : MapsRows Sequence.Bears s t)
    (hdatasets : t.datasetSnapshots = s.datasetSnapshots) (hdailies : t.dailyUpdates = s.dailyUpdates) :
    Carries s t :=
  ⟨h, .of_eq hdatasets hdailies, fun u hu => ⟨u, hdailies ▸ hu, rfl, rfl⟩⟩

theorem Carries.refl (s : Store) : Carries s s := .of_rows (.of_eq .refl rfl) rfl rfl

theorem carries_updateSequences {s t : Store} {p : Sequence → Bool} {f : Sequence → Sequence} {hf}
    (h : s.updateSequences p f hf = .ok t) (hbears : ∀ q ∈ s.sequences, p q = true → q.Bears (f q)) :
    Carries s t :=
  .of_rows (mapsRows_update .refl h hbears) (by rw [updateSequences_ok h])
    (by rw [updateSequences_ok h])

theorem carries_updateAttempts {s t : Store} {p : Attempt → Bool} {f : Attempt → Attempt} {hf}
    (h : s.updateAttempts p f hf = .ok t) : Carries s t :=
  .of_rows (.of_eq .refl (by rw [updateAttempts_ok h])) (by rw [updateAttempts_ok h])
    (by rw [updateAttempts_ok h])

theorem carries_refreshDataset (s : Store) (k : String × String) : Carries s (s.refreshDataset k) :=
  ⟨.of_eq .refl rfl, extends_refreshDataset s k, fun u hu => ⟨u, hu, rfl, rfl⟩⟩

theorem carries_refreshDaily (s : Store) (k : String) : Carries s (s.refreshDaily k) := by
  refine ⟨.of_eq .refl rfl, extends_refreshDaily s k, fun u hu => ?_⟩
  simp only [Store.refreshDaily, Table.mem_modify] at hu
  rcases hu with ⟨hu, -⟩ | ⟨v, hv, -, rfl⟩
  · exact ⟨u, hu, rfl, rfl⟩
  · exact ⟨v, hv, rfl, rfl⟩

theorem carries_refreshStatuses (s : Store) (k : String) : Carries s (s.refreshStatuses k) := by
  have hfold : ∀ (ks : List (String × String)) (s : Store),
      Carries s (ks.foldl Store.refreshDataset s) := by
    intro ks
    induction ks with
    | nil => exact Carries.refl
    | cons k ks ih => exact fun s => (carries_refreshDataset s k).trans (ih _)
  exact (hfold _ s).trans (carries_refreshDaily _ k)

theorem Held.carries {s t : Store} {log : List Event} (h : Held P gov F ⟨s, log⟩) (hc : Carries s t)
    (haudited : Audited gov t) : Held P gov F ⟨t, log⟩ := by
  obtain ⟨g, hbears, hfind⟩ := hc.rows
  have hback : ∀ r ∈ t.sequences, ∃ q ∈ s.sequences, g q = r := by
    intro r hr
    have hself := Table.find?_self hr
    rw [hfind, Option.map_eq_some_iff] at hself
    obtain ⟨q, hq, hgq⟩ := hself
    exact ⟨q, (Table.find?_eq_some.mp hq).1, hgq⟩
  refine ⟨haudited, fun r hr => ?_, fun k hk => ?_, fun u hu => ?_, fun r hr b hb => ?_, fun e he => ?_⟩
  · obtain ⟨q, hq, rfl⟩ := hback r hr
    exact (h.rows q hq).bears (hbears q hq)
  · refine h.strangers k ?_
    rw [hfind, Option.map_eq_none_iff] at hk
    exact hk
  · obtain ⟨v, hv, htarget, hexecution⟩ := hc.dated u hu
    rw [htarget, hexecution]
    exact h.dated v hv
  · obtain ⟨q, hq, rfl⟩ := hback r hr
    have hq' := hbears q hq
    have hdaily : (g q).dailyId = q.dailyId := congrArg (·.1) hq'.basis.key
    have hsymbol : (g q).symbol = q.symbol := congrArg (·.2) hq'.basis.key
    rw [hdaily, hsymbol]
    refine validatePrepared_keeps hc.ext (fun q' hq'' => ⟨g q', ?_, ?_⟩)
      (h.valid q hq b (hq'.prepared.symm.trans hb))
    · rw [hfind, hq'']
      rfl
    · exact (hbears q' (Table.find?_eq_some.mp hq'').1).basis
  · obtain ⟨⟨q, hq, hsnap⟩, hfetches⟩ := h.frozen e he
    refine ⟨⟨g q, ?_, ?_⟩, hfetches⟩
    · rw [hfind, hq]
      rfl
    · exact (hbears q (Table.find?_eq_some.mp hq).1).basis.snapshot.trans hsnap

/-- What a statement makes of the rows it writes. -/
structure Writes (P : Platform) (d : Disk) (t : Store) (p : Sequence → Bool) (f : Sequence → Sequence) :
    Prop where
  custody : ∀ q ∈ d.store.sequences, p q = true → (f q).Custody P d.log
  valid : ∀ q ∈ d.store.sequences, p q = true → ∀ b, (f q).prepared = some b →
    (q.prepared = some b ∧ q.Basis (f q)) ∨ t.validatePrepared P q.dailyId q.symbol b = true
  snapshot : ∀ q ∈ d.store.sequences, p q = true → Kept q.snapshot (f q).snapshot

theorem Held.update {d : Disk} {t : Store} {p : Sequence → Bool} {f : Sequence → Sequence} {hf}
    (h : Held P gov F d) (ht : d.store.updateSequences p f hf = .ok t) (haudited : Audited gov t)
    (hw : Writes P d t p f) : Held P gov F ⟨t, d.log⟩ := by
  have ht' := updateSequences_ok ht
  have hsequences : t.sequences = d.store.sequences.update p f hf := by rw [ht']
  have hfind : ∀ k, t.sequences.find? k =
      (d.store.sequences.find? k).map fun q => if p q then f q else q := by
    intro k
    rw [hsequences, Table.find?_update]
  have hext : Extends d.store t := .of_eq (by rw [ht']) (by rw [ht'])
  refine ⟨haudited, fun r hr => ?_, fun k hk => ?_, ?_, fun r hr b hb => ?_, fun e he => ?_⟩
  · rw [hsequences] at hr
    obtain ⟨q, hq, rfl⟩ := Table.mem_update.mp hr
    split
    · rename_i hp
      exact hw.custody q hq hp
    · exact h.rows q hq
  · refine h.strangers k ?_
    rw [hfind, Option.map_eq_none_iff] at hk
    exact hk
  · rw [ht']
    exact h.dated
  · have hr' := hr
    rw [hsequences] at hr'
    obtain ⟨q, hq, hrq⟩ := Table.mem_update.mp hr'
    have hkey : r.key = q.key := by
      rw [hrq]
      split
      · exact hf q
      · rfl
    have hdaily : r.dailyId = q.dailyId := congrArg (·.1) hkey
    have hsymbol : r.symbol = q.symbol := congrArg (·.2) hkey
    rw [hdaily, hsymbol]
    have hold : ∀ body, q.prepared = some body → q.Basis r →
        t.validatePrepared P q.dailyId q.symbol body = true := by
      intro body hbody hbasis
      refine validatePrepared_keeps hext (fun q' hq' => ⟨r, ?_, ?_⟩) (h.valid q hq body hbody)
      · have hfindr := Table.find?_self hr
        rw [hkey] at hfindr
        exact hfindr
      · have hqq : q' = q := by
          have hself := Table.find?_self hq
          exact Option.some.inj (hq'.symm.trans hself)
        rw [hqq]
        exact hbasis
    by_cases hp : p q = true
    · rw [if_pos hp] at hrq
      rw [hrq] at hb hold
      rcases hw.valid q hq hp b hb with ⟨hbq, hbasis⟩ | hvalid
      · exact hold b hbq hbasis
      · exact hvalid
    · rw [if_neg hp] at hrq
      rw [hrq] at hb hold
      exact hold b hb (.refl q)
  · obtain ⟨⟨q, hq, hsnap⟩, hfetches⟩ := h.frozen e he
    refine ⟨⟨if p q then f q else q, by rw [hfind, hq]; rfl, ?_⟩, hfetches⟩
    split
    · rename_i hp
      exact hw.snapshot q (Table.find?_eq_some.mp hq).1 hp _ hsnap
    · exact hsnap

/-! ## The statements that carry -/

theorem carries_aside {s t : Store} {d : String} (h : Refreshed d s t)
    (hu : MapsRows Sequence.Bears s t) : Carries s t := by
  rcases h with ⟨hdatasets, hdailies⟩ | ⟨v, hdatasets, hdailies, rfl⟩
  · exact .of_rows hu hdatasets hdailies
  · have hv := carries_refreshStatuses v d
    refine ⟨hu, (Extends.of_eq hdatasets hdailies).trans hv.ext, fun w hw => ?_⟩
    obtain ⟨x, hx, hdates⟩ := hv.dated w hw
    exact ⟨x, hdailies ▸ hx, hdates⟩

theorem carries_acquireAttempt {s t : Store} {d y : String} {now : Datetime} {terminal granted : Bool}
    {n : Nat} (h : s.acquireAttempt d y now gov terminal = .ok (t, granted, n)) : Carries s t := by
  obtain ⟨hrows, hrefreshed, -⟩ := acquireAttempt_cases h
  exact carries_aside hrefreshed (hrows.imp fun _ _ h => h.2)

theorem carries_finishAttempt {s t : Store} {d y : String} {n : Nat} {outcome : Outcome} {code : String}
    {retryable : Bool} {reason : Option String}
    (h : s.finishAttempt d y n outcome code retryable reason = .ok t) : Carries s t := by
  obtain ⟨_, _, h⟩ := ok_bind h
  obtain ⟨u, hu, h⟩ := ok_bind h
  obtain ⟨_, _, h⟩ := ok_bind h
  obtain ⟨v, hv, h⟩ := ok_bind h
  cases h
  have hrows := carries_updateSequences hv fun q _ _ =>
    ⟨⟨rfl, rfl, rfl, rfl, rfl, rfl, rfl⟩, le_rfl, rfl, rfl, rfl⟩
  exact ((carries_updateAttempts hu).trans hrows).trans (carries_refreshStatuses v d)

theorem carries_markCutoff {s t : Store} {d : String} {n : Nat} (h : s.markCutoff d = .ok (t, n)) :
    Carries s t := by
  obtain ⟨u, hu, h⟩ := ok_bind h
  obtain ⟨v, hv, h⟩ := ok_bind h
  have hrows := carries_updateSequences hv fun q _ _ =>
    ⟨⟨rfl, rfl, rfl, rfl, rfl, rfl, rfl⟩, le_rfl, rfl, rfl, rfl⟩
  have hcarries := (carries_updateAttempts hu).trans hrows
  split at h
  · cases h
    exact hcarries
  · cases h
    exact hcarries.trans (carries_refreshStatuses v d)

theorem carries_markTerminal {s t : Store} {d y code : String} {reason : Option String}
    (h : s.markTerminal d y code reason = .ok t) : Carries s t := by
  obtain ⟨_, _, h⟩ := ok_bind h
  obtain ⟨_, _, h⟩ := ok_bind h
  exact carries_updateSequences h fun q _ _ =>
    ⟨⟨rfl, rfl, rfl, rfl, rfl, rfl, rfl⟩, le_rfl, rfl, rfl, rfl⟩

theorem carries_saveSource {s t : Store} {d y attemptId runId : String} {terminal : Option String}
    (h : s.saveSource d y attemptId runId terminal = .ok t) : Carries s t :=
  carries_updateSequences h fun _ _ _ =>
    ⟨⟨rfl, rfl, rfl, rfl, rfl, rfl, rfl⟩, le_rfl, rfl, rfl, rfl⟩

theorem carries_markPreflight {s t : Store} {d y : String} (h : s.markPreflightValidated d y = .ok t) :
    Carries s t := by
  obtain ⟨_, _, h⟩ := ok_bind h
  obtain ⟨_, _, h⟩ := ok_bind h
  cases h
  refine ⟨.of_eq .refl rfl, ⟨fun _ r h => ⟨r, h, rfl⟩, fun k u h => ?_⟩, fun u hu => ?_⟩
  · dsimp only
    rw [Table.find?_update, h]
    refine ⟨_, rfl, ?_⟩
    dsimp only
    split <;> rfl
  · rw [Table.mem_update] at hu
    obtain ⟨v, hv, rfl⟩ := hu
    refine ⟨v, hv, ?_⟩
    split <;> exact ⟨rfl, rfl⟩

/-! ## The statements that write the custody -/

theorem updateSequences_checked {s t : Store} {p : Sequence → Bool} {f : Sequence → Sequence} {hf}
    (h : s.updateSequences p f hf = .ok t) : ∀ r ∈ t.sequences, r.check = true := by
  have hsequences : t.sequences = s.sequences.update p f hf := by rw [updateSequences_ok h]
  obtain ⟨_, hcheck, -⟩ := ok_bind h
  rw [ensure_ok, List.all_eq_true] at hcheck
  intro r hr
  rw [hsequences] at hr
  exact hcheck r hr

/-- The row of a key after an update of it. -/
theorem find?_updateSequences {s t : Store} {f : Sequence → Sequence} {k : String × String} {hf}
    (h : s.updateSequences (fun r => r.key == k) f hf = .ok t) :
    t.sequences.find? k = (s.sequences.find? k).map f := by
  have hsequences : t.sequences = s.sequences.update (fun r => r.key == k) f hf := by
    rw [updateSequences_ok h]
  rw [hsequences, Table.find?_update]
  cases hq : s.sequences.find? k with
  | none => rfl
  | some q =>
    have hkey := (Table.find?_eq_some.mp hq).2
    simp [hkey]

/-- The rows that an update of a key writes. -/
theorem find?_of_key {s : Store} {k : String × String} {q : Sequence} (hq : q ∈ s.sequences)
    (hk : (q.key == k) = true) : s.sequences.find? k = some q := by
  rw [← beq_iff_eq.mp hk]
  exact Table.find?_self hq

/-- A row without a snapshot has nothing else. -/
theorem Sequence.Custody.nothing {q : Sequence} {log : List Event} (h : q.Custody P log)
    (hsnap : q.snapshot = none) : q.rawSha256 = none ∧ q.rawRef = none ∧ q.rawSize = none ∧
      q.prepared = none ∧ uploads log q.key = [] ∧ deliveries log q.key = [] := by
  have hsha : q.rawSha256 = none := by
    rw [Option.eq_none_iff_forall_not_mem]
    intro digest hd
    obtain ⟨snap, hs, -⟩ := h.digest digest hd
    rw [hsnap] at hs
    cases hs
  have hsize : q.rawSize = none := by
    rw [Option.eq_none_iff_forall_not_mem]
    intro n hn
    obtain ⟨snap, hs, -⟩ := h.size n hn
    rw [hsnap] at hs
    cases hs
  have href : q.rawRef = none := by
    rw [← Option.not_isSome_iff_eq_none]
    intro hr
    have := (h.raw hr).1
    rw [hsha] at this
    cases this
  have hprepared : q.prepared = none := by
    rw [← Option.not_isSome_iff_eq_none]
    intro hp
    have := (h.basis hp).2
    rw [hsha] at this
    cases this
  refine ⟨hsha, href, hsize, hprepared, ?_, ?_⟩
  · refine List.eq_nil_iff_forall_not_mem.mpr fun snap hin => ?_
    have := (h.uploaded snap hin).1
    rw [hsnap] at this
    cases this
  · refine List.eq_nil_iff_forall_not_mem.mpr fun b hin => ?_
    have := h.delivered b hin
    rw [hprepared] at this
    cases this

theorem held_completeAttempt {s t : Store} {log : List Event} {d y : String} {n : Nat} {snap : Bytes}
    (h : Held P gov F ⟨s, log⟩) (ht : s.completeAttemptWithSnapshot d y n snap = .ok t)
    (hsnap : ∀ q, s.sequences.find? (d, y) = some q → q.snapshot = none) :
    Held P gov F ⟨t, log⟩ ∧ ∀ q, t.sequences.find? (d, y) = some q → q.snapshot = some snap := by
  obtain ⟨_, _, ht⟩ := ok_bind ht
  obtain ⟨u, hu, ht⟩ := ok_bind ht
  obtain ⟨_, _, ht⟩ := ok_bind ht
  obtain ⟨v, hv, ht⟩ := ok_bind ht
  cases ht
  have hu' : u.sequences = s.sequences := by rw [updateAttempts_ok hu]
  have hclosed := (quiet_updateAttempts hu (fun _ => open_started) fun _ => rfl).closes
  have hheld : Held P gov F ⟨u, log⟩ := h.carries (carries_updateAttempts hu) (h.audited.closes hclosed)
  have hwrites : Held P gov F ⟨v, log⟩ := by
    refine hheld.update hv (hheld.audited.closes (closes_updateSequences hv fun _ => rfl)) ?_
    have hnone : ∀ q ∈ u.sequences, (q.key == (d, y)) = true → q.snapshot = none := fun q hq hk =>
      hsnap q (hu' ▸ find?_of_key hq hk)
    refine ⟨fun q hq hk => ?_, fun q hq hk b hb => ?_, fun q hq hk a ha => ?_⟩
    · have hcustody := hheld.rows q hq
      obtain ⟨hsha, href, hsize, hprepared, hups, hdels⟩ := hcustody.nothing (hnone q hq hk)
      exact
        { digest := by simp [hsha]
          size := by simp [hsize]
          raw := by simp [href]
          ref := by simp [href]
          prepared := by simp [hprepared]
          unprepared := hcustody.unprepared
          basis := by simp [hprepared]
          uploaded := fun a ha => by
            have hin : a ∈ uploads log q.key := ha
            rw [show uploads log q.key = [] from hups] at hin
            cases hin
          once := hcustody.once
          delivered := fun a ha => by
            have hin : a ∈ deliveries log q.key := ha
            rw [show deliveries log q.key = [] from hdels] at hin
            cases hin
          fetched := hcustody.fetched }
    · obtain ⟨-, -, -, hprepared, -, -⟩ := (hheld.rows q hq).nothing (hnone q hq hk)
      rw [hprepared] at hb
      cases hb
    · rw [hnone q hq hk] at ha
      cases ha
  refine ⟨hwrites.carries (carries_refreshStatuses v d)
    (hwrites.audited.closes (closes_refresh v d)), fun q hq => ?_⟩
  rw [refreshStatuses_sequences, find?_updateSequences hv, Option.map_eq_some_iff] at hq
  obtain ⟨q', -, rfl⟩ := hq
  rfl

/-- The row of a sequence before its upload: the snapshot is there, and an intent or nothing. -/
structure Intended (P : Platform) (log : List Event) (snap : Bytes) (q : Sequence) : Prop where
  snapshot : q.snapshot = some snap
  digest : q.rawSha256 = some (P.sha256 snap)
  unsaved : q.rawRef = none
  first : uploads log q.key = []

theorem held_beginRaw {s t : Store} {log : List Event} {d y : String} {snap : Bytes} {intent : Intent}
    (h : Held P gov F ⟨s, log⟩) (ht : s.beginRaw P d y snap = .ok (t, intent))
    (hsnap : ∀ q, s.sequences.find? (d, y) = some q → q.snapshot = some snap)
    (hraw : s.getRaw d y = none) : Held P gov F ⟨t, log⟩ ∧
      (∀ q, t.sequences.find? (d, y) = some q → q.snapshot = some snap) ∧
      (intent ≠ .uncertain → ∃ q, t.sequences.find? (d, y) = some q ∧ Intended P log snap q) := by
  obtain ⟨q, hq, ht⟩ := ok_bind ht
  rw [need_ok] at hq
  have hcustody := h.rows q (Table.find?_eq_some.mp hq).1
  split at ht
  · rename_i href hsha hsize
    obtain ⟨u, hu, ht⟩ := ok_bind ht
    cases ht
    have hfind := find?_updateSequences hu
    rw [hq, Option.map_some] at hfind
    have hups : uploads log q.key = [] := by
      refine List.eq_nil_iff_forall_not_mem.mpr fun a hin => ?_
      have := (hcustody.uploaded a hin).2
      rw [hsha] at this
      cases this
    have hprepared : q.prepared = none := by
      rw [← Option.not_isSome_iff_eq_none]
      intro hp
      have := (hcustody.basis hp).2
      rw [hsha] at this
      cases this
    have honly : ∀ r ∈ s.sequences, (r.key == (d, y)) = true → r = q := fun r hr hk =>
      Option.some.inj ((find?_of_key hr hk).symm.trans hq)
    have hrow : q.snapshot = some snap := hsnap q hq
    refine ⟨h.update hu (h.audited.closes (closes_updateSequences hu fun _ => rfl)) ⟨?_, ?_, ?_⟩, ?_, ?_⟩
    · intro r hr hk
      cases honly r hr hk
      exact
        { digest := fun _ hd => ⟨snap, hrow, (Option.some.inj hd).symm⟩
          size := hcustody.size
          raw := by simp [href]
          ref := hcustody.ref
          prepared := hcustody.prepared
          unprepared := hcustody.unprepared
          basis := by simp [hprepared]
          uploaded := fun a ha => ⟨(hcustody.uploaded a ha).1, rfl⟩
          once := hcustody.once
          delivered := hcustody.delivered
          fetched := hcustody.fetched }
    · intro r hr hk b hb
      cases honly r hr hk
      rw [hprepared] at hb
      cases hb
    · exact fun r _ _ => .refl _
    · intro r hr
      rw [hfind] at hr
      cases hr
      exact hrow
    · exact fun _ => ⟨_, hfind, hrow, rfl, href, hups⟩
  · obtain ⟨_, _, ht⟩ := ok_bind ht
    cases ht
    exact ⟨h, hsnap, fun hne => absurd rfl hne⟩
  · rename_i ref sha size href hsha hsize
    -- the row is complete, and `get_raw` had said otherwise
    exfalso
    unfold Store.getRaw at hraw
    rw [show s.sequences.find? (d, y) = some q from hq] at hraw
    simp [href, hsha, hsize] at hraw
  · cases ht

theorem held_saveRaw {s t : Store} {log : List Event} {d y ref : String} {snap : Bytes}
    (h : Held P gov F ⟨s, log⟩) (ht : s.saveRaw d y ref (P.sha256 snap) snap.length = .ok t)
    (hrow : ∀ q, s.sequences.find? (d, y) = some q →
      q.snapshot = some snap ∧ q.rawSha256 = some (P.sha256 snap) ∧ q.rawRef = none) :
    Held P gov F ⟨t, log⟩ ∧ ∀ q, t.sequences.find? (d, y) = some q → q.snapshot = some snap := by
  obtain ⟨_, hvalid, ht⟩ := ok_bind ht
  rw [ensure_ok, Bool.and_eq_true, Bool.and_eq_true, Bool.and_eq_true] at hvalid
  have hlength : ref.length ≤ 2048 := by
    have := hvalid.1.1.1
    unfold lengthWithin at this
    rw [Bool.and_eq_true, decide_eq_true_eq, decide_eq_true_eq] at this
    exact this.2
  refine ⟨h.update ht (h.audited.closes (closes_updateSequences ht fun _ => rfl)) ⟨?_, ?_, ?_⟩, ?_⟩
  · intro q hq hk
    have hcustody := h.rows q hq
    obtain ⟨hsnapshot, hsha, href⟩ := hrow q (find?_of_key hq hk)
    have hprepared : q.prepared = none := by
      rw [← Option.not_isSome_iff_eq_none]
      intro hp
      have := (hcustody.basis hp).1
      rw [href] at this
      cases this
    refine
      { digest := fun digest hd => ?_
        size := fun n hn => ?_
        raw := fun _ => ?_
        ref := fun r hr => ?_
        prepared := hcustody.prepared
        unprepared := hcustody.unprepared
        basis := by simp [hprepared]
        uploaded := fun a ha => ?_
        once := hcustody.once
        delivered := hcustody.delivered
        fetched := hcustody.fetched }
    · simp only [hsha] at hd
      cases hd
      exact ⟨snap, hsnapshot, rfl⟩
    · cases hsize : q.rawSize with
      | none =>
        simp only [hsize] at hn
        cases hn
        exact ⟨snap, hsnapshot, rfl⟩
      | some m =>
        simp only [hsize] at hn
        exact hcustody.size n (hsize.trans hn)
    · constructor
      · simp [hsha]
      · cases q.rawSize <;> rfl
    · simp only [href] at hr
      cases hr
      exact hlength
    · exact ⟨(hcustody.uploaded a ha).1, by simp [hsha]⟩
  · intro q hq hk b hb
    have hcustody := h.rows q hq
    obtain ⟨-, -, href⟩ := hrow q (find?_of_key hq hk)
    have hsome := (hcustody.basis (Option.isSome_iff_exists.mpr ⟨b, hb⟩)).1
    rw [href] at hsome
    cases hsome
  · exact fun q _ _ => .refl _
  · intro r hr
    rw [find?_updateSequences ht, Option.map_eq_some_iff] at hr
    obtain ⟨q, hq, rfl⟩ := hr
    exact (hrow q hq).1

theorem Sequence.check_prepared {q : Sequence} (h : q.check = true) (hp : q.prepared.isSome = true) :
    q.rawRef.isSome = true ∧ q.rawSha256.isSome = true := by
  unfold Sequence.check at h
  simp only [Bool.and_eq_true, Bool.or_eq_true] at h
  rcases h.1.1.1.2 with hnone | hsome
  · rw [Option.isNone_iff_eq_none] at hnone
    rw [hnone] at hp
    cases hp
  · exact hsome

theorem held_savePrepared {s t : Store} {log : List Event} {d y : String} {body : Bytes}
    (h : Held P gov F ⟨s, log⟩) (ht : s.savePrepared P d y body = .ok t) : Held P gov F ⟨t, log⟩ := by
  obtain ⟨_, _, ht⟩ := ok_bind ht
  obtain ⟨_, _, ht⟩ := ok_bind ht
  obtain ⟨_, hvalid, ht⟩ := ok_bind ht
  rw [ensure_ok] at hvalid
  have hchecked := updateSequences_checked ht
  refine h.update ht (h.audited.closes (closes_updateSequences ht fun _ => rfl)) ⟨?_, ?_, ?_⟩
  · intro q hq hk
    have hcustody := h.rows q hq
    have hcheck := hchecked _ (Table.find?_eq_some.mp
      ((find?_updateSequences ht).trans (congrArg (Option.map _) (find?_of_key hq hk)))).1
    refine
      { digest := hcustody.digest
        size := hcustody.size
        raw := hcustody.raw
        ref := hcustody.ref
        prepared := fun b hb => ?_
        unprepared := fun hnone => ?_
        basis := fun _ => Sequence.check_prepared hcheck ?_
        uploaded := hcustody.uploaded
        once := hcustody.once
        delivered := fun b hb => ?_
        fetched := hcustody.fetched }
    · cases hprepared : q.prepared with
      | some b' =>
        have hbb : b' = b := by simpa [hprepared] using hb
        simp [hcustody.prepared b' hprepared, hbb]
      | none =>
        simp only [hprepared] at hb
        cases hb
        simp [hcustody.unprepared hprepared]
    · cases hprepared : q.prepared <;> simp [hprepared] at hnone
    · cases q.prepared <;> rfl
    · have hprepared := hcustody.delivered b hb
      simp [hprepared]
  · intro q hq hk b hb
    cases hprepared : q.prepared with
    | some b' =>
      simp only [hprepared] at hb
      cases hb
      exact Or.inl ⟨rfl, rfl, rfl, rfl, rfl, rfl, rfl, rfl⟩
    | none =>
      simp only [hprepared] at hb
      cases hb
      have hdaily : q.dailyId = d := congrArg (·.1) (beq_iff_eq.mp hk)
      have hsymbol : q.symbol = y := congrArg (·.2) (beq_iff_eq.mp hk)
      rw [hdaily, hsymbol]
      refine Or.inr (validatePrepared_keeps (.of_eq ?_ ?_) (fun r hr => ?_) hvalid)
      · rw [updateSequences_ok ht]
      · rw [updateSequences_ok ht]
      · refine ⟨_, (find?_updateSequences ht).trans (congrArg (Option.map _) hr), ?_⟩
        exact ⟨rfl, rfl, rfl, rfl, rfl, rfl, rfl⟩
  · exact fun q _ _ => .refl _

/-- What `get_prepared` gives is what the row has. -/
theorem getPrepared_some {s : Store} {d y : String} {body : Bytes}
    (h : s.getPrepared P d y = .ok (some body)) :
    ∃ q, s.sequences.find? (d, y) = some q ∧ q.prepared = some body := by
  unfold Store.getPrepared at h
  split at h
  · cases h
  · rename_i q hq
    split at h
    · cases h
    · rename_i body' hbody
      obtain ⟨_, _, h⟩ := ok_bind h
      obtain ⟨_, _, h⟩ := ok_bind h
      cases h
      exact ⟨q, hq, hbody⟩

theorem getPrepared_none {s : Store} {d y : String} (h : s.getPrepared P d y = .ok none) :
    ∀ q, s.sequences.find? (d, y) = some q → q.prepared = none := by
  unfold Store.getPrepared at h
  split at h
  · rename_i hnone
    intro q hq
    rw [hnone] at hq
    cases hq
  · rename_i q hq
    split at h
    · rename_i hprepared
      intro q' hq'
      rw [hq] at hq'
      cases hq'
      exact hprepared
    · obtain ⟨_, _, h⟩ := ok_bind h
      obtain ⟨_, _, h⟩ := ok_bind h
      cases h

/-! ### Plans -/

/-- The rows of `s` are rows of `t`, and the others of `t` are new and untouched. -/
structure Plants (s t : Store) : Prop where
  kept : ∀ k q, s.sequences.find? k = some q → t.sequences.find? k = some q
  fresh : ∀ k q, s.sequences.find? k = none → t.sequences.find? k = some q → q.untouched = true
  ext : Extends s t
  dailies : t.dailyUpdates = s.dailyUpdates

theorem Plants.refl (s : Store) : Plants s s :=
  ⟨fun _ _ h => h, fun _ _ h h' => (by rw [h] at h'; cases h'), .refl s, rfl⟩

theorem Plants.trans {s t u : Store} (h : Plants s t) (h' : Plants t u) : Plants s u where
  kept k q hq := h'.kept k q (h.kept k q hq)
  fresh k q hs hu := by
    cases ht : t.sequences.find? k with
    | none => exact h'.fresh k q ht hu
    | some r =>
      have hur := h'.kept k r ht
      rw [hu] at hur
      cases hur
      exact h.fresh k q hs ht
  ext := h.ext.trans h'.ext
  dailies := h'.dailies.trans h.dailies

theorem plants_insertDataset (s : Store) (d : String) (row : PlanRow) :
    Plants s (s.insertDataset P d row) := by
  refine ⟨fun _ _ h => h, fun _ _ h h' => ?_, ⟨fun k r hr => ⟨r, ?_, rfl⟩, fun _ u hu => ⟨u, hu, rfl⟩⟩, rfl⟩
  · have : s.sequences.find? _ = some _ := h'
    rw [h] at this
    cases this
  · unfold Store.insertDataset
    dsimp only
    rw [Table.find?_insertNew, hr]
    rfl

theorem plants_insertSequence (s : Store) (d : String) (row : PlanRow) :
    Plants s (s.insertSequence d row) := by
  unfold Store.insertSequence
  dsimp only
  split
  · exact .refl s
  · refine ⟨fun k q hq => ?_, fun k q hk hq => ?_, .of_eq rfl rfl, rfl⟩
    · rw [Table.find?_insertNew, hq]
      rfl
    · rw [Table.find?_insertNew, hk, Option.none_or] at hq
      split at hq
      · cases hq
        rfl
      · cases hq

theorem plants_insertRows (rows : List PlanRow) (s : Store) (d : String) :
    Plants s (rows.foldl (fun s row => s.insertRow P d row) s) := by
  induction rows generalizing s with
  | nil => exact .refl s
  | cons row rows ih =>
    exact ((plants_insertDataset s d row).trans (plants_insertSequence _ d row)).trans (ih _)

theorem Held.plants {s t : Store} {log : List Event} (h : Held P gov F ⟨s, log⟩) (hp : Plants s t)
    (haudited : Audited gov t) : Held P gov F ⟨t, log⟩ := by
  have hold : ∀ r ∈ t.sequences, (s.sequences.find? r.key = none ∧ r.untouched = true) ∨
      r ∈ s.sequences := by
    intro r hr
    have hself := Table.find?_self hr
    cases hs : s.sequences.find? r.key with
    | none => exact Or.inl ⟨rfl, hp.fresh _ _ hs hself⟩
    | some q =>
      have hq := hp.kept _ _ hs
      rw [hself] at hq
      cases hq
      exact Or.inr (Table.find?_eq_some.mp hs).1
  refine ⟨haudited, fun r hr => ?_, fun k hk => ?_, fun u hu => h.dated u (hp.dailies ▸ hu),
    fun r hr b hb => ?_, fun e he => ?_⟩
  · rcases hold r hr with ⟨hnone, huntouched⟩ | hr'
    · obtain ⟨hf, hu, hd⟩ := h.strangers _ hnone
      exact custody_fresh huntouched hf hu hd
    · exact h.rows r hr'
  · refine h.strangers k ?_
    cases hs : s.sequences.find? k with
    | none => rfl
    | some q =>
      have hq := hp.kept _ _ hs
      rw [hk] at hq
      cases hq
  · rcases hold r hr with ⟨-, huntouched⟩ | hr'
    · unfold Sequence.untouched at huntouched
      simp only [Bool.and_eq_true, Option.isNone_iff_eq_none] at huntouched
      have hnone := huntouched.1.1.1.1.1.1.2
      rw [hnone] at hb
      cases hb
    · exact validatePrepared_keeps hp.ext (fun q hq => ⟨q, hp.kept _ _ hq, .refl q⟩) (h.valid r hr' b hb)
  · obtain ⟨⟨q, hq, hsnap⟩, hfetches⟩ := h.frozen e he
    exact ⟨⟨q, hp.kept _ _ hq, hsnap⟩, hfetches⟩

theorem held_ensurePlan {s t : Store} {log : List Event} {plan : Plan} (h : Held P gov F ⟨s, log⟩)
    (ht : s.ensurePlan P plan = .ok t)
    (hdate : validTargetDate plan.targetDate plan.executionDate = true) : Held P gov F ⟨t, log⟩ := by
  have hquiet := ensurePlan_quiet ht
  obtain ⟨_, _, ht⟩ := ok_bind ht
  obtain ⟨_, _, ht⟩ := ok_bind ht
  cases ht
  let daily : DailyUpdate := ⟨plan.dailyId, plan.targetDate, plan.universeId, plan.dailyUpdateId,
    plan.executionDate, .pending, .pending⟩
  have hdaily : Held P gov F ⟨{ s with dailyUpdates := s.dailyUpdates.insertNew daily }, log⟩ :=
    { audited := h.audited.closes (quiet_aside s _ s.datasetSnapshots).closes
      rows := h.rows
      strangers := h.strangers
      dated := fun u hu => by
        rcases Table.mem_insertNew.mp hu with hu | ⟨rfl, -⟩
        · exact h.dated u hu
        · exact hdate
      valid := fun q hq b hb => by
        refine validatePrepared_keeps (s := s) ⟨fun _ r hr => ⟨r, hr, rfl⟩, fun k u hu => ⟨u, ?_, rfl⟩⟩
          (fun q hq => ⟨q, hq, .refl q⟩) (h.valid q hq b hb)
        dsimp only
        rw [Table.find?_insertNew, hu]
        rfl
      frozen := h.frozen }
  have hrows := hdaily.plants (plants_insertRows (P := P) plan.rows _ plan.dailyId)
    (h.audited.closes ((quiet_aside s _ s.datasetSnapshots).trans
      (foldl_insertRow_quiet (P := P) plan.rows _ plan.dailyId)).closes)
  exact hrows.carries (carries_refreshStatuses _ _) (h.audited.closes hquiet.closes)

end FinDB.Staging
