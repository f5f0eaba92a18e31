import FinDB.ProviderWork.Agreement

/-! # Acquisition stays closed

A round that left the open state never opens again, and a round that only drains
goes on draining for as long as it holds the provider: recovery opens nothing but
a blocked round and a claim resets `drain_only` of a waiting one only. A stopped
historical request keeps its works closed, except for bytes a receipt has already
accepted. -/
namespace FinDB.ProviderWork
open FinDB.Lib Relation

variable {cfg : Config} {mode : Mode} {s t : Db}

/-! ## Rounds -/

/-- Acquisition of the round is over. -/
def AttemptState.shut : AttemptState → Bool
  | .closed | .draining | .settled => true
  | .queued | .opened | .recoveryBlocked => false

theorem Moved.shut {a a' : Attempt} (h : Moved s t a a') (hs : a.state.shut = true) :
    a'.state.shut = true := by
  cases h with
  | kept => exact hs
  | handed _ _ _ queued | cancelled _ queued | drains queued => rw [queued] at hs; cases hs
  | resumed | blocked =>
    -- only a blocked round is opened and only an open one blocked
    cases hst : a.state <;> simp_all [Attempt.handed, AttemptState.shut]
  | closed | draining | settled => rfl

/-- A round that has left the queue never returns to it. -/
theorem Moved.left_queue {a a' : Attempt} (h : Moved s t a a') (hq : a.state ≠ .queued) :
    a'.state ≠ .queued := by
  cases h with
  | kept => exact hq
  | handed | closed | draining | settled | cancelled => exact nofun
  | drains queued => exact absurd queued hq
  | resumed | blocked => cases hst : a.state <;> simp_all [Attempt.handed]

theorem Moved.drainOnly {a a' : Attempt} (h : Moved s t a a') (hq : a.state ≠ .queued)
    (hd : a.drainOnly = true) : a'.drainOnly = true := by
  cases h with
  | kept | blocked | closed | draining | settled | cancelled => exact hd
  | handed _ _ _ queued => exact absurd queued hq
  | resumed drain _ _ keeps => exact keeps hd
  | drains => rfl

theorem trans_keepsAttempts (h : Trans cfg mode s t) : s.attempts.Keeps t.attempts := by
  cases h with
  | enqueue _ _ _ _ _ _ ha => exact Table.keeps_insert? ha
  | hand | resume | block | close | drain | finish => exact Table.keeps_modify (by intro _; rfl)
  | retry _ _ _ _ _ _ _ ha =>
    exact (Table.keeps_modify (by intro _; rfl)).trans (Table.keeps_insert? ha)
  | cancelQueued | drainQueued => exact Table.keeps_update (by intro _; rfl)
  | reopen _ _ _ _ _ _ ha => exact Table.keeps_insert? ha
  | _ => exact .refl _

/-- What stays of every round along a run. -/
structure Closes (a a' : Attempt) : Prop where
  shut : a.state.shut = true → a'.state.shut = true
  left : a.state ≠ .queued → a'.state ≠ .queued
  drains : a.state ≠ .queued → a.drainOnly = true → a'.drainOnly = true

theorem Closes.refl (a : Attempt) : Closes a a := ⟨id, id, fun _ => id⟩

theorem Closes.trans {a b c : Attempt} (h : Closes a b) (h' : Closes b c) : Closes a c :=
  ⟨fun hs => h'.shut (h.shut hs), fun hq => h'.left (h.left hq),
    fun hq hd => h'.drains (h.left hq) (h.drains hq hd)⟩

/-- Every round is still there and no more open than it was. -/
def RoundsClose (s t : Db) : Prop :=
  ∀ a ∈ s.attempts, ∃ a' ∈ t.attempts, a'.attemptId = a.attemptId ∧ Closes a a'

theorem RoundsClose.trans {u : Db} (h : RoundsClose s t) (h' : RoundsClose t u) :
    RoundsClose s u := by
  intro a ha
  obtain ⟨b, hb, hab, hclose⟩ := h a ha
  obtain ⟨c, hc, hbc, hclose'⟩ := h' b hb
  exact ⟨c, hc, hbc.trans hab, hclose.trans hclose'⟩

theorem trans_roundsClose (h : Trans cfg mode s t) : RoundsClose s t := by
  intro a ha
  obtain ⟨a', ha', hid⟩ := trans_keepsAttempts h a ha
  have hmove := trans_moved h ha ha' hid
  exact ⟨a', ha', hid, hmove.shut, hmove.left_queue, hmove.drainOnly⟩

theorem roundsClose_of_eq (h : t.attempts = s.attempts) : RoundsClose s t :=
  fun a ha => ⟨a, h ▸ ha, rfl, .refl a⟩

theorem Steps.roundsClose (h : Steps cfg s t) (hr : Reachable cfg s) : RoundsClose s t :=
  h.transRel (I := fun _ => True) (fun _ => roundsClose_of_eq rfl) (fun _ _ _ => RoundsClose.trans)
    (fun _ _ _ _ => trivial) (fun _ _ _ _ => trivial)
    (fun _ _ henv => roundsClose_of_eq henv.attempts) (fun _ _ ht _ => trans_roundsClose ht)
    hr.requestsEnded trivial

/-- The row of a round later in the run. -/
theorem Steps.closes (h : Steps cfg s t) (hr : Reachable cfg s) {a a' : Attempt}
    (ha : a ∈ s.attempts) (ha' : a' ∈ t.attempts) (hid : a'.attemptId = a.attemptId) :
    Closes a a' := by
  obtain ⟨b, hb, hba, hclose⟩ := h.roundsClose hr a ha
  rw [Table.eq_of_key ha' hb (hid.trans hba.symm)]
  exact hclose

/-! ## Preparations -/

/-- How `register_prepared` succeeds: the key was bound before and every key stays,
or a round that may acquire binds a new one. -/
inductive Registers (cfg : Config) (utc : Instant) (body : String) (s t : Db) (work : Work)
    (attempt : Attempt) : Prop where
  | bound (request : Ingress) (ingress : cfg.ingress body = some request)
      (known : (s.descriptor work.workId request.idempotencyKey).isSome = true)
      (keys : ∀ workId, t.preparedKeys workId = s.preparedKeys workId) :
      Registers cfg utc body s t work attempt
  | new (p : Prepared) (prepared : Table Prepared.key) (ofWork : p.workId = work.workId)
      (opened : attempt.state = .opened) (acquires : attempt.drainOnly = false)
      (allowed : acquisitionOpen cfg utc s work false = true ∨
        s.acceptedAs work.workId p.deliveryKey p.descriptor.payloadSha256 = true)
      (inserted : s.prepared.insert? p = some prepared) (left : t = { s with prepared }) :
      Registers cfg utc body s t work attempt

theorem registerPrepared_ok {utc : Instant} {identity : FenceIdentity} {body : String}
    {stage : Stage} {jobKey : Option String}
    (h : registerPrepared cfg utc identity body stage jobKey s = .ok t) :
    ∃ work attempt, Fenced utc identity s work attempt ∧
      Registers cfg utc body s t work attempt := by
  unfold registerPrepared at h
  obtain ⟨⟨work, attempt⟩, hf, h⟩ := ok_bind h
  obtain ⟨request, hrequest, h⟩ := ok_bind h
  obtain ⟨_, _, h⟩ := ok_bind h
  refine ⟨work, attempt, fence_fenced hf, ?_⟩
  cases hd : s.descriptor work.workId request.idempotencyKey with
  | some previous =>
    simp only [hd] at h
    obtain ⟨_, _, h⟩ := ok_bind h
    cases ok_pure h
    refine .bound request (need_ok.mp hrequest) (by rw [hd]; rfl) fun workId => ?_
    split
    · exact preparedKeys_confirm _ _ _
    · rfl
  | none =>
    simp only [hd] at h
    obtain ⟨p, prepared, hw, ho, hdrain, hallowed, hins, hleft⟩ := storePrepared_ok h
    exact .new p prepared hw ho hdrain hallowed hins hleft

/-- No call of a round asks the provider again or binds a new key. -/
structure AcquisitionOver (cfg : Config) (s : Db) (attemptId : Uuid) : Prop where
  fence : ∀ utc identity work attempt, fence cfg utc identity true s = .ok (work, attempt) →
    attempt.attemptId ≠ attemptId
  prepared : ∀ utc identity body stage jobKey t, s.owner.attemptId = some attemptId →
    registerPrepared cfg utc identity body stage jobKey s = .ok t →
    (∃ request, cfg.ingress body = some request ∧
      (s.descriptor identity.workId request.idempotencyKey).isSome = true) ∧
    ∀ workId, t.preparedKeys workId = s.preparedKeys workId

theorem acquisitionOver {a : Attempt} (ha : a ∈ s.attempts)
    (hover : a.state ≠ .opened ∨ a.drainOnly = true) : AcquisitionOver cfg s a.attemptId := by
  refine ⟨fun utc identity work attempt h hid => ?_,
    fun utc identity body stage jobKey t howned h => ?_⟩
  · obtain ⟨hopened, _, hdrain, _⟩ := fence_acquisition h
    have hrow : attempt = a := Table.eq_of_key (fence_fenced h).mem ha hid
    rw [hrow] at hopened hdrain
    rcases hover with hst | hd
    · exact hst hopened
    · rw [hdrain] at hd
      cases hd
  · obtain ⟨work, attempt, hf, hreg⟩ := registerPrepared_ok h
    have hrow : attempt = a :=
      Table.eq_of_key hf.mem ha (Option.some.inj (hf.owned.symm.trans howned))
    cases hreg with
    | bound request ingress known keys => exact ⟨⟨request, ingress, hf.workId ▸ known⟩, keys⟩
    | new p prepared _ opened acquires =>
      rw [hrow] at opened acquires
      rcases hover with hst | hd
      · exact absurd opened hst
      · rw [acquires] at hd
        cases hd

/-! ## Stopped requests -/

/-- The work of one of the request's items. -/
def Work.ofRequest (s : Db) (w : Work) (requestId : Uuid) : Prop :=
  ∃ i ∈ s.items, i.requestId = requestId ∧ w.stableKey = .historical i.itemId

/-- Ended requests are never written again. -/
def RequestsKept (s t : Db) : Prop := ∀ q ∈ s.requests, q.status.live = false → q ∈ t.requests

theorem requestsKept_modify {requestId : Uuid} {f : Request → Request}
    (hf : ∀ r, (f r).requestId = r.requestId)
    (hlive : ∀ q ∈ s.requests, q.requestId = requestId → q.status.live = true) :
    ∀ q ∈ s.requests, q.status.live = false → q ∈ s.requests.modify requestId f hf := by
  intro q hq hended
  refine Table.mem_modify.mpr (Or.inl ⟨hq, fun hid => ?_⟩)
  rw [hlive q hq hid] at hended
  cases hended

theorem trans_requestsKept (h : Trans cfg mode s t) : RequestsKept s t := by
  cases h with
  | request hq => exact fun q hmem _ => (Table.mem_insert? hq).mpr (Or.inl hmem)
  | endRequest requestId f hf _ _ live => exact requestsKept_modify hf live
  | @startItem work attempt i q now held mem _ _ requestMem ofRequest live =>
    refine requestsKept_modify (by intro _; rfl) fun q' hq' hid => ?_
    rw [Table.eq_of_key hq' requestMem (hid.trans ofRequest.symm)]
    exact live
  | _ => exact fun q hq _ => hq

theorem Steps.requestsKept (h : Steps cfg s t) (hr : Reachable cfg s) : RequestsKept s t :=
  h.transRel (I := fun _ => True) (fun _ _ hq _ => hq)
    (fun _ _ _ h h' q hq he => h' q (h q hq he) he) (fun _ _ _ _ => trivial)
    (fun _ _ _ _ => trivial) (fun _ _ henv _ hq _ => henv.requests ▸ hq)
    (fun _ _ ht _ => trans_requestsKept ht) hr.requestsEnded trivial

/-- The gate of a work whose request has ended is closed. -/
theorem acquisitionOpen_ended {utc : Instant} {w : Work} {q : Request} {checkWindow : Bool}
    (hrows : ∀ w ∈ s.works, HistoricalRow s w) (hw : w ∈ s.works) (hq : q ∈ s.requests)
    (hended : q.status.live = false) (hof : w.ofRequest s q.requestId) :
    acquisitionOpen cfg utc s w checkWindow = false := by
  obtain ⟨i, hi, hiq, hkey⟩ := hof
  have hk : w.kind = .historical := (hrows w hw).1 i.itemId hkey
  obtain ⟨item, _, hitem, hscope⟩ := (hrows w hw).2 hk
  have hid : item.itemId = i.itemId := by
    rw [hitem] at hkey
    exact StableKey.historical.inj hkey
  cases hopen : acquisitionOpen cfg utc s w checkWindow with
  | false => rfl
  | true =>
    obtain ⟨itemId, item', request, href, hfind, hreq, _, hlive⟩ :=
      acquisitionOpen_historical hk hopen
    have hitemId : item.itemId = itemId := by simpa [Work.itemRef, hscope] using href
    obtain ⟨hmem, hkey'⟩ := Table.find?_eq_some.mp hfind
    obtain ⟨hrmem, hrkey⟩ := Table.find?_eq_some.mp hreq
    have hrow : item' = i := Table.eq_of_key hmem hi (by rw [hkey', ← hitemId, hid])
    have hrequest : request = q := Table.eq_of_key hrmem hq (by rw [hrkey, hrow, hiq])
    rw [hrequest, hended] at hlive
    cases hlive

/-- Only a preparation binds new keys. -/
theorem transs_preparedKeys (h : Transs cfg .unprepared s t) (workId : Uuid) :
    t.preparedKeys workId = s.preparedKeys workId := by
  induction h with
  | refl => rfl
  | tail _ ht ih =>
    refine Eq.trans ?_ ih
    cases ht with
    | prepare _ may => exact may.elim
    | confirm => exact preparedKeys_confirm _ _ _
    | _ => rfl

/-- What an operation adds to the prepared keys of a work with an ended request. -/
theorem apply_preparedKeys (hr : Reachable cfg s) (op : Op) {w : Work} {q : Request}
    (hw : w ∈ (apply cfg op s).works) (hof : w.ofRequest (apply cfg op s) q.requestId)
    (hq : q ∈ s.requests) (hended : q.status.live = false) {k : String}
    (hk : k ∈ (apply cfg op s).preparedKeys w.workId) :
    k ∈ s.preparedKeys w.workId ∨ ∃ p ∈ (apply cfg op s).prepared, p.workId = w.workId ∧
      p.deliveryKey = k ∧ s.acceptedAs w.workId k p.descriptor.payloadSha256 = true := by
  by_cases hp : op.prepares
  · cases op with
    | mutate utc datasets identity action =>
      cases action with
      | prepare body stage jobKey =>
        simp only [apply] at hw hof hk ⊢
        rcases commit_leaves s
          (mutateDb cfg utc datasets identity (.prepare body stage jobKey) s) with hsame | hl
        · rw [hsame] at hk
          exact Or.inl hk
        rcases mutate_leaves hl with hsame | ⟨_, _, hrun⟩
        · rw [hsame] at hk
          exact Or.inl hk
        obtain ⟨u, hu, hleft⟩ := leaves_plain hrun
        rw [← hleft] at hw hof hk ⊢
        obtain ⟨work, attempt, hf, hreg⟩ := registerPrepared_ok hu
        cases hreg with
        | bound _ _ _ keys => exact Or.inl (keys w.workId ▸ hk)
        | new p prepared ofWork _ _ allowed inserted left =>
          subst left
          obtain ⟨p', hp', rfl⟩ := List.mem_map.mp hk
          obtain ⟨hmem, hid⟩ := List.mem_filter.mp hp'
          have hid : p'.workId = w.workId := by simpa using hid
          rcases (Table.mem_insert? inserted).mp hmem with hold | rfl
          · exact Or.inl (List.mem_map.mpr ⟨p', List.mem_filter.mpr ⟨hold, by simpa using hid⟩, rfl⟩)
          · have hrow : work = w := Table.eq_of_key hf.workMem hw (ofWork.symm.trans hid)
            subst hrow
            refine Or.inr ⟨p', hmem, hid, rfl, ?_⟩
            rcases allowed with hopen | haccepted
            · have hclosed : acquisitionOpen cfg utc s work false = false :=
                acquisitionOpen_ended hr.rows hf.workMem hq hended hof
              rw [hclosed] at hopen
              cases hopen
            · exact haccepted
      | heartbeat | manifest | close | settle => exact hp.elim
    | _ => exact hp.elim
  · obtain ⟨m, henv, htrans⟩ := @apply_refines cfg .unprepared s op hr.requestsEnded False.elim
      (fun _ => trivial) fun ho => absurd ho hp
    have hkeys : (apply cfg op s).preparedKeys w.workId = s.preparedKeys w.workId := by
      rw [transs_preparedKeys htrans, Db.preparedKeys, Db.preparedOf, henv.prepared]
      rfl
    exact Or.inl (hkeys ▸ hk)

/-- **Acquisition stays closed.** Later in any run a shut round is shut, an owned
round that only drained still only drains, and neither acquires nor binds a new key.
Every operation after the end of a historical request adds to its works only keys
that a receipt had accepted with the same payload. -/
theorem acquisition_stays_closed (hr : Reachable cfg s) (hst : Steps cfg s t) :
    (∀ a ∈ s.attempts, a.state.shut = true →
      AcquisitionOver cfg t a.attemptId ∧
      ∀ a' ∈ t.attempts, a'.attemptId = a.attemptId → a'.state.shut = true) ∧
    (∀ a ∈ s.attempts, s.owner.attemptId = some a.attemptId → a.drainOnly = true →
      AcquisitionOver cfg t a.attemptId ∧
      ∀ a' ∈ t.attempts, a'.attemptId = a.attemptId → a'.drainOnly = true) ∧
    (∀ q ∈ s.requests, q.status = .cancelled ∨ q.status = .failed → ∀ op,
      ∀ w ∈ (apply cfg op t).works, w.ofRequest (apply cfg op t) q.requestId →
      ∀ k ∈ (apply cfg op t).preparedKeys w.workId, k ∈ t.preparedKeys w.workId ∨
        ∃ p ∈ (apply cfg op t).prepared, p.workId = w.workId ∧ p.deliveryKey = k ∧
          t.acceptedAs w.workId k p.descriptor.payloadSha256 = true) := by
  refine ⟨fun a ha hshut => ?_, fun a ha howned hd => ?_, fun q hq hstatus op w hw hof k hk => ?_⟩
  · obtain ⟨a', ha', hid, hclose⟩ := hst.roundsClose hr a ha
    refine ⟨?_, fun b hb hbid => (hst.closes hr ha hb hbid).shut hshut⟩
    have hnot : a'.state ≠ .opened := by
      intro hopened
      have hshut' := hclose.shut hshut
      rw [hopened] at hshut'
      cases hshut'
    exact hid ▸ acquisitionOver ha' (Or.inl hnot)
  · have hq : a.state ≠ .queued := by
      intro hq
      have hactive := (hr.shape.singleOwner.active a ha).mpr howned
      rw [hq] at hactive
      cases hactive
    obtain ⟨a', ha', hid, hclose⟩ := hst.roundsClose hr a ha
    exact ⟨hid ▸ acquisitionOver ha' (Or.inr (hclose.drains hq hd)),
      fun b hb hbid => (hst.closes hr ha hb hbid).drains hq hd⟩
  · have hended : q.status.live = false := by
      rcases hstatus with h | h <;> rw [h] <;> rfl
    exact apply_preparedKeys (hr.steps hst) op hw hof (hst.requestsKept hr q hq hended) hended hk

/-- A closed round that its host loses and recovers is still closed. -/
theorem acquisition_stays_closed_recovered :
    let s := ranTwelveData [enqueueMaintenance, .claim 5 5 7 (hostClaim false),
      .mutate 6 ["us_equity_eod"] ⟨1, 1, 7⟩ .close]
    let t := runAll (apply (utcConfig .twelveData))
      [.claim (3 * minute) (3 * minute) 8 (hostClaim false),
        .claim (3 * minute) (3 * minute) 9 (hostClaim true)] s
    (∃ a ∈ s.attempts, a.state = .closed ∧
      AcquisitionOver (utcConfig .twelveData) t a.attemptId) ∧
    t.owner.generation = 2 ∧ t.attempts.rows.map (·.state) = [.closed] := by
  intro s t
  have hrow : ∃ a, a ∈ s.attempts ∧ a.state = .closed := ⟨_, List.mem_singleton.mpr rfl, rfl⟩
  obtain ⟨a, ha, hclosed⟩ := hrow
  have hsteps : Steps (utcConfig .twelveData) s t :=
    runAll_steps _ s (admitted_of_forall (fun _ _ => trivial) _ s)
  have hall := acquisition_stays_closed (reachable_runAll _ _) hsteps
  exact ⟨⟨a, ha, hclosed, (hall.1 a ha (by rw [hclosed]; rfl)).1⟩, by decide, by decide⟩

end FinDB.ProviderWork
