import FinDB.ProviderWork.Fencing
import FinDB.ProviderWork.Terminal

/-! # The FIFO and the historical domain

A historical item and its work are two state machines with one end each. Every
path that ends the work ends the item first or with it, except one: the generic
settlement of a failed or cancelled outcome never looks at the item. In runs
without such a settlement the two agree. -/
namespace FinDB.ProviderWork
open FinDB.Lib Relation

variable {cfg : Config} {mode : Mode} {s t : Db}

/-- An ended historical work has an ended item, and a running item a live work. -/
structure DomainAgrees (s : Db) : Prop where
  ended : ∀ w ∈ s.works, w.kind = .historical → w.state.terminal = true →
    ∀ i ∈ s.items, w.stableKey = .historical i.itemId → i.status.live = false
  running : ∀ i ∈ s.items, i.status = .running → ∃ w ∈ s.works,
    w.stableKey = .historical i.itemId ∧ w.kind = .historical ∧
      (w.state = .queued ∨ w.state = .running ∨ w.state = .recoveryBlocked)

/-! ## What a transition does to an item -/

/-- The item starts for the work that holds the provider. -/
def Starts (s : Db) (i : Item) : Prop :=
  ∃ work, Holds s work ∧ work.kind = .historical ∧ work.itemRef = some i.itemId

/-- A transition writes works or items, never both. -/
theorem trans_works_or_items (h : Trans cfg mode s t) : t.items = s.items ∨ t.works = s.works := by
  cases h with
  | item | endItem | startItem => exact Or.inr rfl
  | _ => exact Or.inl rfl

/-- Every item of the next state is new and waits, or comes from one of its id. -/
theorem trans_items (h : Trans cfg mode s t) {i' : Item} (hi' : i' ∈ t.items) :
    ((∀ i ∈ s.items, i.itemId ≠ i'.itemId) ∧ i'.status ≠ .running) ∨
    ∃ i ∈ s.items, i'.itemId = i.itemId ∧
      (i'.status = i.status ∨ i'.status.live = false ∨ Starts s i) := by
  cases h with
  | item notRunning _ hi =>
    rcases (Table.mem_insert? hi).mp hi' with h | rfl
    · exact Or.inr ⟨i', h, rfl, Or.inl rfl⟩
    · exact Or.inl ⟨Table.insert?_fresh hi, notRunning⟩
  | endItem itemId f hf ends =>
    rcases (Db.mem_setItem hf).mp hi' with ⟨h, _⟩ | ⟨j, hj, _, rfl⟩
    · exact Or.inr ⟨i', h, rfl, Or.inl rfl⟩
    · rcases (ends j).2 with hsame | hended
      · exact Or.inr ⟨j, hj, hf j, Or.inl hsame⟩
      · exact Or.inr ⟨j, hj, hf j, Or.inr (Or.inl hended)⟩
  | @startItem work attempt i q now held mem ofWork historical _ _ _ =>
    rcases (Table.mem_modify_row (by intro _; rfl) mem).mp hi' with ⟨h, _⟩ | rfl
    · exact Or.inr ⟨i', h, rfl, Or.inl rfl⟩
    · exact Or.inr ⟨i, mem, rfl, Or.inr (Or.inr ⟨work, ⟨attempt, held⟩, historical, ofWork⟩)⟩
  | _ => exact Or.inr ⟨i', hi', rfl, Or.inl rfl⟩

theorem trans_keepsItems (h : Trans cfg mode s t) : s.items.Keeps t.items := by
  cases h with
  | item _ _ hins => exact Table.keeps_insert? hins
  | endItem itemId f hf _ => exact Table.keeps_modify hf
  | startItem => exact Table.keeps_modify (by intro _; rfl)
  | _ => exact .refl _

/-! ## The invariant -/

structure Agreement (s : Db) : Prop where
  rows : ∀ w ∈ s.works, HistoricalRow s w
  keys : ∀ v ∈ s.works, ∀ w ∈ s.works, v.stableKey = w.stableKey → v = w
  closed : ∀ w ∈ s.works, w.state = .calendarClosed → w.kind = .daily
  ended : ∀ w ∈ s.works, w.state.terminal = true → ItemEnded s w
  worked : ∀ i ∈ s.items, i.status = .running → ∃ w ∈ s.works, w.stableKey = .historical i.itemId

theorem WorkMoved.same {w w' : Work} (h : WorkMoved mode s w w') : SameIdentity w w' := by
  cases h <;> exact ⟨rfl, rfl, rfl, rfl, rfl, rfl⟩

/-- A historical work belongs to its item, whichever way it is named. -/
theorem Agreement.ofItem (h : Agreement s) {w : Work} {itemId : Uuid} (hw : w ∈ s.works)
    (hk : w.kind = .historical) (href : w.itemRef = some itemId) :
    w.stableKey = .historical itemId := by
  obtain ⟨item, _, hkey, hscope⟩ := (h.rows w hw).2 hk
  have hid : item.itemId = itemId := by
    simpa [Work.itemRef, hscope] using href
  rw [hkey, hid]

theorem historicalRow_keeps {w w' : Work} (hitems : s.items.Keeps t.items) (hsame : SameIdentity w w') (h : HistoricalRow s w) : HistoricalRow t w' := by
  refine ⟨fun i hi => ?_, fun hk => ?_⟩
  · rw [hsame.kind]
    exact h.1 i (hsame.stableKey ▸ hi)
  · obtain ⟨item, hitem, hkey, hscope⟩ := h.2 (hsame.kind ▸ hk)
    obtain ⟨item', hitem', hid⟩ := hitems item hitem
    exact ⟨item', hitem', by rw [hsame.stableKey, hkey, hid], by rw [hsame.scope, hscope, hid]⟩

/-- Historical works keep their items. -/
theorem trans_rows (ht : Trans cfg mode s t) (h : ∀ w ∈ s.works, HistoricalRow s w) :
    ∀ w ∈ t.works, HistoricalRow t w := by
  intro w' hw'
  rcases trans_works ht hw' with hnew | ⟨w, hw, hmove⟩
  · exact historicalRow_keeps (trans_keepsItems ht) (.refl w') hnew.row
  · exact historicalRow_keeps (trans_keepsItems ht) hmove.same (h w hw)

theorem Reachable.rows (h : Reachable cfg s) : ∀ w ∈ s.works, HistoricalRow s w := by
  refine h.transInv (I := fun s => ∀ w ∈ s.works, HistoricalRow s w)
    (fun registry w hw => absurd hw (Table.not_mem_empty w)) (fun s t henv hs w hw => ?_)
    fun _ _ => trans_rows
  rw [henv.works] at hw
  exact historicalRow_keeps (henv.items ▸ .refl s.items) (.refl w) (hs w hw)

/-- The stable keys stay apart. -/
theorem trans_keys (ht : Trans cfg mode s t)
    (h : ∀ v ∈ s.works, ∀ w ∈ s.works, v.stableKey = w.stableKey → v = w) :
    ∀ v ∈ t.works, ∀ w ∈ t.works, v.stableKey = w.stableKey → v = w := by
  intro v hv w hw hkey
  rcases trans_works ht hv with hnewv | ⟨v₀, hv₀, hmv⟩ <;>
    rcases trans_works ht hw with hneww | ⟨w₀, hw₀, hmw⟩
  · rcases hneww.only v hv with hold | heq
    · exact absurd rfl (hnewv.fresh v hold)
    · exact heq
  · exact absurd (hmw.same.stableKey.symm.trans hkey.symm) (hnewv.freshKey w₀ hw₀)
  · exact absurd (hmv.same.stableKey.symm.trans hkey) (hneww.freshKey v₀ hv₀)
  · have hold := h v₀ hv₀ w₀ hw₀
      (hmv.same.stableKey.symm.trans (hkey.trans hmw.same.stableKey))
    exact Table.eq_of_key hv hw (by rw [hmv.workId, hmw.workId, hold])

/-- What a strict transition has checked of the item when it ends a work. -/
theorem WorkMoved.itemEnded {w w' : Work} (h : WorkMoved .strictly s w w')
    (hw : w.state.terminal = true → ItemEnded s w) (ht : w'.state.terminal = true) :
    ItemEnded s w := by
  cases h with
  | kept => exact hw ht
  | frozen => exact hw ht
  | settled _ _ _ _ domain => exact domain trivial
  | cancelled _ _ ended => exact ended
  | started | resumed | blocked | requeued | reopened | calendarClosed => cases ht

theorem WorkMoved.closedDaily {w w' : Work} (h : WorkMoved mode s w w')
    (hw : w.state = .calendarClosed → w.kind = .daily) (hc : w'.state = .calendarClosed) :
    w'.kind = .daily := by
  cases h with
  | kept => exact hw hc
  | frozen => exact hw hc
  | settled _ _ r final _ =>
    have hterm := Outcome.workState_terminal final
    have hc : r.outcome.workState = .calendarClosed := hc
    rw [hc] at hterm
    cases hterm
  | calendarClosed _ daily _ => exact daily
  | started | resumed | blocked | requeued | reopened | cancelled => cases hc

/-- A transition that writes works. -/
theorem Agreement.works (h : Agreement s) (ht : Trans cfg .strictly s t)
    (hitems : t.items = s.items) : Agreement t := by
  refine ⟨trans_rows ht h.rows, trans_keys ht h.keys, fun w' hw' hc => ?_, fun w' hw' hterm => ?_, ?_⟩
  · rcases trans_works ht hw' with hnew | ⟨w, hw, hmove⟩
    · rw [hnew.queued] at hc
      cases hc
    · exact hmove.closedDaily (h.closed w hw) hc
  · rcases trans_works ht hw' with hnew | ⟨w, hw, hmove⟩
    · rw [hnew.queued] at hterm
      cases hterm
    · intro hk i hi hkey
      rw [hitems] at hi
      exact hmove.itemEnded (h.ended w hw) hterm (hmove.same.kind ▸ hk) i hi
        (hmove.same.stableKey ▸ hkey)
  · intro i hi hrun
    rw [hitems] at hi
    obtain ⟨w, hw, hkey⟩ := h.worked i hi hrun
    obtain ⟨w', hw', hsame⟩ := trans_keepsWorks ht w hw
    exact ⟨w', hw', hsame.stableKey.trans hkey⟩

/-- The work an item starts for, in the terms of its stable key. -/
theorem Agreement.starts (h : Agreement s) {i : Item} (hs : Starts s i) :
    ∃ w a, Held s w a ∧ w.stableKey = .historical i.itemId := by
  obtain ⟨w, ⟨a, held⟩, hk, href⟩ := hs
  exact ⟨w, a, held, h.ofItem held.workMem hk href⟩

/-- A transition that writes items. -/
theorem Agreement.items (h : Agreement s) (hshape : Shape s) (ht : Trans cfg mode s t)
    (hworks : t.works = s.works) : Agreement t := by
  refine ⟨trans_rows ht h.rows, by rw [hworks]; exact h.keys, by rw [hworks]; exact h.closed, ?_, ?_⟩
  · intro w hw hterm hk i' hi' hkey
    rw [hworks] at hw
    rcases trans_items ht hi' with ⟨hfresh, _⟩ | ⟨i, hi, hid, hsame | hended | hstarts⟩
    · -- a work is only enqueued for an item that is there
      obtain ⟨item, hitem, hrow, _⟩ := (h.rows w hw).2 hk
      rw [hrow] at hkey
      injection hkey with hid
      exact absurd hid (hfresh item hitem)
    · rw [hsame]
      exact h.ended w hw hterm hk i hi (hid ▸ hkey)
    · exact hended
    · -- the work that starts its item is the ended one, yet it holds the provider
      obtain ⟨v, a, held, hv⟩ := h.starts hstarts
      have hvw : v = w := h.keys v held.workMem w hw (by rw [hv, hkey, hid])
      subst hvw
      exact absurd rfl (hshape.ne_of_held held hw hterm)
  · intro i' hi' hrun
    rw [hworks]
    rcases trans_items ht hi' with ⟨_, hnot⟩ | ⟨i, hi, hid, hsame | hended | hstarts⟩
    · exact absurd hrun hnot
    · rw [hid]
      exact h.worked i hi (hsame ▸ hrun)
    · rw [hrun] at hended
      cases hended
    · obtain ⟨w, a, held, hw⟩ := h.starts hstarts
      exact ⟨w, held.workMem, by rw [hw, hid]⟩

theorem trans_agreement (ht : Trans cfg .strictly s t) (hshape : Shape s) (h : Agreement s) :
    Agreement t := by
  rcases trans_works_or_items ht with hitems | hworks
  · exact h.works ht hitems
  · exact h.items hshape ht hworks

theorem agreement_init (registry : Registry) : Agreement (Db.init registry) := by
  refine ⟨?_, ?_, ?_, ?_, ?_⟩
  · exact fun w hw => absurd hw (Table.not_mem_empty w)
  · exact fun v hv => absurd hv (Table.not_mem_empty v)
  · exact fun w hw => absurd hw (Table.not_mem_empty w)
  · exact fun w hw => absurd hw (Table.not_mem_empty w)
  · exact fun i hi => absurd hi (Table.not_mem_empty i)

theorem Agreement.env (henv : Env s t) (h : Agreement s) : Agreement t := by
  refine ⟨?_, ?_, ?_, ?_, ?_⟩
  · intro w hw
    rw [henv.works] at hw
    exact historicalRow_keeps (henv.items ▸ .refl s.items) (.refl w) (h.rows w hw)
  · rw [henv.works]
    exact h.keys
  · rw [henv.works]
    exact h.closed
  · intro w hw hterm hk i hi
    rw [henv.works] at hw
    rw [henv.items] at hi
    exact h.ended w hw hterm hk i hi
  · rw [henv.items, henv.works]
    exact h.worked

theorem StrictReachable.agreement (h : StrictReachable cfg s) : Agreement s := by
  have hboth : Shape s ∧ Agreement s := by
    refine h.transInv (I := fun s => Shape s ∧ Agreement s)
      (fun registry => ⟨shape_init registry, agreement_init registry⟩)
      (fun s t henv hs => ⟨hs.1.congr henv.works henv.attempts (by rw [henv.owner]),
        hs.2.env henv⟩)
      fun s t ht hs => ⟨trans_shape ht hs.1, trans_agreement ht hs.1 hs.2⟩
  exact hboth.2

theorem Agreement.domainAgrees (h : Agreement s) : DomainAgrees s := by
  refine ⟨fun w hw hk hterm => h.ended w hw hterm hk, fun i hi hrun => ?_⟩
  obtain ⟨w, hw, hkey⟩ := h.worked i hi hrun
  have hk : w.kind = .historical := (h.rows w hw).1 i.itemId hkey
  have hopen : w.state.terminal = false := by
    cases hterm : w.state.terminal with
    | false => rfl
    | true =>
      have hended := h.ended w hw hterm hk i hi hkey
      rw [hrun] at hended
      cases hended
  have hnot : w.state ≠ .calendarClosed := by
    intro hc
    have hdaily := h.closed w hw hc
    rw [hk] at hdaily
    cases hdaily
  refine ⟨w, hw, hkey, hk, ?_⟩
  cases hst : w.state <;> simp_all [WorkState.terminal]

/-! ## The settlement that does not look at the item -/

theorem fence_of_fenced {utc : Instant} {identity : FenceIdentity} {work : Work}
    {attempt : Attempt} (h : Fenced utc identity s work attempt) :
    fence cfg utc identity false s = .ok (work, attempt) := by
  have hattempt : s.ownedAttempt.filter (identity.owns s) = some attempt := by
    have howned : s.ownedAttempt = some attempt := by
      rw [Db.ownedAttempt, h.owned]
      exact Table.find?_self h.mem
    have howns : identity.owns s attempt = true := by
      simp [FenceIdentity.owns, h.ofWork, h.workId, h.generation, h.token]
    rw [howned, Option.filter_some, howns]
    rfl
  have hwork : s.works.find? identity.workId = some work :=
    Table.find?_eq_some.mpr ⟨h.workMem, h.workId⟩
  unfold fence
  rw [hattempt, hwork, h.live]
  rfl

theorem settle_of_settles {utc : Instant} {newId : Uuid} {identity : FenceIdentity}
    {validated : Option Uuid} {r : Settlement} {work : Work} {attempt : Attempt}
    (h : Settles cfg utc identity validated r s work attempt)
    (hfinal : (r.effective s work).outcome ≠ .retry) :
    settle cfg utc newId identity validated r s = .ok (s.finish attempt utc (r.effective s work)) := by
  have hclosed : (attempt.state == .closed || attempt.state == .draining) = true := by
    rcases h.closed with hc | hc <;> simp [hc]
  have hretry : ((r.effective s work).outcome == .retry) = false := by simpa using hfinal
  unfold settle
  rw [fence_of_fenced h.fenced]
  change plain (ensure (attempt.state == .closed || attempt.state == .draining) _) >>= _ = _
  rw [hclosed]
  change ensureOrKeep (r.coversPrepared s work.workId) _ _ >>= _ = _
  rw [h.covers]
  change ensureOrKeep (s.runsTerminal work.workId) _ _ >>= _ = _
  rw [h.terminal]
  change plain (settleEvidence cfg s work validated (r.effective s work)) >>= _ = _
  rw [h.evidence]
  change plain (ensure (sourceErrorsChecked work (r.effective s work)) _) >>= _ = _
  rw [h.errors]
  change (if (r.effective s work).outcome == .retry then _ else _) = _
  rw [hretry]
  rfl

theorem Held.finish_mem {work : Work} {attempt : Attempt} (h : Held s work attempt)
    (utc : Instant) (r : Settlement) :
    { work with state := r.outcome.workState, completedAt := some utc } ∈
      (s.finish attempt utc r).works := by
  have hmem : { work with state := r.outcome.workState, completedAt := some utc } ∈
      s.works.modify attempt.workId fun w =>
        { w with state := r.outcome.workState, completedAt := some utc } := by
    rw [h.ofWork]
    exact (Table.mem_modify_row (by intro _; rfl) h.workMem).mpr (Or.inr rfl)
  exact hmem

/-- The current identity has no settled round, so its call reaches the service. -/
theorem Reachable.noPrevious (h : Reachable cfg s) {utc : Instant} {datasets : List DatasetKey}
    {identity : FenceIdentity} {action : Action} {work : Work} {attempt : Attempt}
    (hf : Fenced utc identity s work attempt) : action.previous datasets identity s = none := by
  cases hp : action.previous datasets identity s with
  | none => rfl
  | some previous =>
    obtain ⟨_, hmem, _, hgen, _, hset⟩ := previous_spec hp
    have hid := h.generations.current previous hmem (by rw [hgen, hf.generation]) _ hf.owned
    have hactive := (h.shape.active hmem).mpr (by rw [hf.owned, hid])
    rw [hset] at hactive
    cases hactive

theorem apply_givesUp {utc : Instant} {datasets : List DatasetKey} {identity : FenceIdentity}
    {r : Settlement} {newId : Uuid} {work : Work} {attempt : Attempt} (h : Reachable cfg s)
    (hg : GivesUp cfg utc datasets identity r s work attempt) (hk : work.kind = .historical) :
    apply cfg (.mutate utc datasets identity (.settle r newId)) s = s.finish attempt utc r := by
  have hsettles := hg.settles
  have he : r.effective s work = r := effective_historical hk
  have hfinal : (r.effective s work).outcome ≠ .retry := by
    rw [he]
    rcases hg.outcome with ho | ho <;> rw [ho] <;> decide
  have hsettle : settle cfg utc newId identity none r s = .ok (s.finish attempt utc r) := by
    rw [settle_of_settles hsettles hfinal, he]
  have hw : (s.finish attempt utc r).works.find? identity.workId =
      some { work with state := r.outcome.workState, completedAt := some utc } :=
    Table.find?_eq_some.mpr ⟨hsettles.fenced.held.finish_mem utc r, hsettles.fenced.workId⟩
  simp only [apply, mutateDb]
  have hmutate : mutate cfg utc datasets identity (.settle r newId) s =
      .ok (s.finish attempt utc r, r.outcome.workState) := by
    unfold mutate
    rw [hg.scope, h.noPrevious hsettles.fenced]
    change plain (fence cfg utc identity false s) >>= _ = _
    rw [fence_of_fenced hsettles.fenced]
    change plain (ensure (datasets.contains work.datasetKey) _) >>= _ = _
    rw [hg.dataset]
    change settle cfg utc newId identity none r s >>= _ = _
    rw [hsettle]
    change plain (need ((s.finish attempt utc r).works.find? identity.workId) _) >>= _ = _
    rw [hw]
    rfl
  rw [hmutate]
  rfl

/-- A generic settlement that gives up a work with a live item tears the two apart. -/
theorem not_domainAgrees_of_givesUp {op : Op} (h : Reachable cfg s)
    (hop : ¬ op.settlesEnded cfg s) : ¬ DomainAgrees (apply cfg op s) := by
  cases op with
  | mutate utc datasets identity action =>
    cases action with
    | settle r newId =>
      simp only [Op.settlesEnded, SettlesEnded, ItemEnded, not_forall] at hop
      obtain ⟨work, attempt, hg, hk, i, hi, hkey, hlive⟩ := hop
      rw [apply_givesUp h hg hk]
      intro hagrees
      have hterm : r.outcome.workState.terminal = true := by
        rcases hg.outcome with ho | ho <;> rw [ho] <;> rfl
      exact hlive (hagrees.ended _ (hg.settles.fenced.held.finish_mem utc r) hk hterm i hi hkey)
    | heartbeat | manifest | prepare | close => exact absurd trivial hop
  | _ => exact absurd trivial hop

/-- **Domain and FIFO agree** in every run in which no generic settlement gives a
historical work up while its item is live, and any such settlement breaks it. -/
theorem domainAgrees_of_settlesEnded :
    (∀ s, StrictReachable cfg s → DomainAgrees s) ∧
    ∀ s op, Reachable cfg s → ¬ op.settlesEnded cfg s → ¬ DomainAgrees (apply cfg op s) :=
  ⟨fun _ h => h.agreement.domainAgrees, fun _ _ h hop => not_domainAgrees_of_givesUp h hop⟩

/-- A backfill item that is claimed and leased. -/
theorem domainAgrees_leased :
    DomainAgrees (runAll (apply (utcConfig .twelveData))
      [createBackfill, .claim (40 * day) (40 * day) 7 (hostClaim false),
        .claimNextItem (40 * day) (40 * day) ["us_equity_eod"] (some ⟨1, 1, 7⟩)]
      (Db.init backfillRegistry)) :=
  domainAgrees_of_settlesEnded.1 _
    ⟨backfillRegistry, runAll_steps _ _ ⟨trivial, trivial, trivial, trivial⟩⟩

/-- The same item after its owner closes and settles the round as failed: the work
is over, the item still runs. -/
theorem settle_failed_leaves_item_running :
    let s := runAll (apply (utcConfig .twelveData))
      [createBackfill, .claim (40 * day) (40 * day) 7 (hostClaim false),
        .claimNextItem (40 * day) (40 * day) ["us_equity_eod"] (some ⟨1, 1, 7⟩),
        .mutate (40 * day) ["us_equity_eod"] ⟨1, 1, 7⟩ .close,
        .mutate (40 * day) ["us_equity_eod"] ⟨1, 1, 7⟩
          (.settle ⟨.failed, Proof.empty, none, some "PROVIDER_FAILED"⟩ 3)]
      (Db.init backfillRegistry)
    Reachable (utcConfig .twelveData) s ∧ s.works.rows.map (·.state) = [.failed] ∧
      s.items.rows.map (·.status) = [.running] ∧ ¬ DomainAgrees s := by
  intro s
  refine ⟨reachable_runAll _ _, by decide, by decide, fun hagrees => ?_⟩
  have hrows : ∃ w ∈ s.works, ∃ i ∈ s.items, w.kind = .historical ∧ w.state.terminal = true ∧
      w.stableKey = .historical i.itemId ∧ i.status.live = true :=
    ⟨_, List.mem_singleton.mpr rfl, _, List.mem_singleton.mpr rfl, rfl, rfl, rfl, rfl⟩
  obtain ⟨w, hw, i, hi, hk, hterm, hkey, hlive⟩ := hrows
  rw [hagrees.ended w hw hk hterm i hi hkey] at hlive
  cases hlive

end FinDB.ProviderWork
