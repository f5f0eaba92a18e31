import FinDB.ProviderWork.Moves
import FinDB.ProviderWork.Owner

/-! # Ended works

A work ends by a final settlement of its held round or by the cancellation of a
queued item. From then on, as long as it stays ended, no transition touches its
row, its rounds, its preparations or its receipts. -/
namespace FinDB.ProviderWork
open FinDB.Lib Relation

variable {cfg : Config} {mode : Mode} {s t : Db}

/-! ## What surrounds a work -/

/-- Nothing that belongs to the work changes from `s` to `t`. -/
structure LeftAlone (s t : Db) (workId : Uuid) : Prop where
  rounds : ∀ a, a.workId = workId → (a ∈ t.attempts ↔ a ∈ s.attempts)
  prepared : t.preparedKeys workId = s.preparedKeys workId
  receipts : t.receiptsOf workId = s.receiptsOf workId

theorem LeftAlone.of_rounds {workId : Uuid}
    (rounds : ∀ a, a.workId = workId → (a ∈ t.attempts ↔ a ∈ s.attempts))
    (prepared : t.prepared = s.prepared) (receipts : t.receipts = s.receipts) :
    LeftAlone s t workId := by
  refine ⟨rounds, ?_, ?_⟩
  · rw [Db.preparedKeys, Db.preparedKeys, Db.preparedOf, Db.preparedOf, prepared]
  · rw [Db.receiptsOf, Db.receiptsOf, receipts]

theorem LeftAlone.of_eq {workId : Uuid} (attempts : t.attempts = s.attempts)
    (prepared : t.prepared = s.prepared) (receipts : t.receipts = s.receipts) :
    LeftAlone s t workId := .of_rounds (fun _ _ => by rw [attempts]) prepared receipts

theorem LeftAlone.refl (s : Db) (workId : Uuid) : LeftAlone s s workId := .of_eq rfl rfl rfl

theorem LeftAlone.trans {u : Db} {workId : Uuid} (h : LeftAlone s t workId)
    (h' : LeftAlone t u workId) : LeftAlone s u workId :=
  ⟨fun a ha => (h'.rounds a ha).trans (h.rounds a ha), h'.prepared.trans h.prepared,
    h'.receipts.trans h.receipts⟩

/-- A round of another work is rewritten. -/
theorem rounds_modify {workId : Uuid} {a : Attempt} {f : Attempt → Attempt}
    (hf : ∀ r, (f r).attemptId = r.attemptId) (hwork : ∀ r, (f r).workId = r.workId)
    (ha : a ∈ s.attempts) (hne : a.workId ≠ workId) (x : Attempt) (hx : x.workId = workId) :
    x ∈ s.attempts.modify a.attemptId f hf ↔ x ∈ s.attempts := by
  rw [Table.mem_modify_row hf ha]
  constructor
  · rintro (⟨hx, _⟩ | rfl)
    · exact hx
    · exact absurd ((hwork a).symm.trans hx) hne
  · intro hmem
    refine Or.inl ⟨hmem, fun hid => ?_⟩
    rw [Table.eq_of_key hmem ha hid] at hx
    exact hne hx

/-- A round of another work is added. -/
theorem rounds_insert {workId : Uuid} {rows attempts : Table Attempt.attemptId} {a : Attempt}
    (ha : rows.insert? a = some attempts) (hne : a.workId ≠ workId) (x : Attempt)
    (hx : x.workId = workId) : x ∈ attempts ↔ x ∈ rows := by
  rw [Table.mem_insert? ha]
  constructor
  · rintro (h | rfl)
    · exact h
    · exact absurd hx hne
  · exact Or.inl

/-- Only queued rounds are rewritten, and the work has none. -/
theorem rounds_update {workId w : Uuid} {f : Attempt → Attempt}
    (hf : ∀ r, (f r).attemptId = r.attemptId) (hwork : ∀ r, (f r).workId = r.workId)
    (hsettled : ∀ a ∈ s.attempts, a.workId = workId → a.state = .settled) (x : Attempt)
    (hx : x.workId = workId) : x ∈ s.attempts.update (queuedOf w) f hf ↔ x ∈ s.attempts := by
  have hkeep : ∀ y ∈ s.attempts, y.workId = workId → queuedOf w y = false := by
    intro y hy hyw
    simp [queuedOf, hsettled y hy hyw]
  rw [Table.mem_update]
  constructor
  · rintro ⟨y, hy, rfl⟩
    by_cases hq : queuedOf w y = true
    · simp only [hq, if_true] at hx ⊢
      have hoff := hkeep y hy ((hwork y).symm.trans hx)
      rw [hq] at hoff
      cases hoff
    · simpa [hq] using hy
  · intro hmem
    exact ⟨x, hmem, by simp [hkeep x hmem hx]⟩

/-! ## An ended work is out of reach -/

theorem Shape.ne_of_held (h : Shape s) {w v : Work} {a : Attempt} (held : Held s v a)
    (hw : w ∈ s.works) (ht : w.state.terminal = true) : v.workId ≠ w.workId := by
  intro hid
  have hvw := Table.eq_of_key held.workMem hw hid
  subst hvw
  rcases (h.held held).2.1 with hst | hst <;> rw [hst] at ht <;> cases ht

theorem Shape.ne_of_accepting (h : Shape s) {w : Work} {workId : Uuid}
    (accepting : Accepting s workId) (hw : w ∈ s.works) (ht : w.state.terminal = true) :
    workId ≠ w.workId := by
  rcases accepting with ⟨v, a, held, rfl⟩ | ⟨v, hv, rfl, hq⟩
  · exact h.ne_of_held held hw ht
  · intro hid
    rw [Table.eq_of_key hv hw hid] at hq
    rw [hq] at ht
    cases ht

theorem Shape.settled_of_terminal (h : Shape s) {w : Work} (hw : w ∈ s.works)
    (ht : w.state.terminal = true) : ∀ a ∈ s.attempts, a.workId = w.workId → a.state = .settled :=
  h.singleOwner.ended w hw ht

/-- How a work came to its end in a transition from `s` to `t`. -/
inductive Ended (cfg : Config) (mode : Mode) (s t : Db) : Work → Prop where
  | settled {work : Work} {attempt : Attempt} (utc : Instant) (r : Settlement)
      (validated : Option Uuid) (held : Held s work attempt)
      (closed : attempt.state = .closed ∨ attempt.state = .draining)
      (checked : Checked cfg s work validated r) (domain : mode.strict → ItemEnded s work)
      (left : t = s.finish attempt utc r) :
      Ended cfg mode s t { work with state := r.outcome.workState, completedAt := some utc }
  | cancelled {work : Work} (now : Instant) (workMem : work ∈ s.works)
      (queued : work.state = .queued) (kept : s.retained work.workId = false)
      (ended : ItemEnded s work)
      (left : t = { s.setWork work.workId
          ({ · with state := .cancelled, completedAt := some now }) with
        attempts := s.attempts.update (queuedOf work.workId)
          ({ · with state := .settled, outcome := some .cancelled, settledAt := some now }) }) :
      Ended cfg mode s t { work with state := .cancelled, completedAt := some now }

/-- A work and its round are rewritten; the others keep their rows and rounds. -/
theorem leftAlone_of_move {v w : Work} {a : Attempt} (hw : w ∈ t.works) (f : Attempt → Attempt)
    (g : Work → Work)
    (hf : ∀ r, (f r).attemptId = r.attemptId) (hwork : ∀ r, (f r).workId = r.workId)
    (hg : ∀ w, (g w).workId = w.workId) (mem : a ∈ s.attempts) (workMem : v ∈ s.works)
    (ofWork : a.workId = v.workId) (hattempts : t.attempts = s.attempts.modify a.attemptId f hf)
    (hworks : t.works = s.works.modify v.workId g hg) (hprepared : t.prepared = s.prepared)
    (hreceipts : t.receipts = s.receipts) :
    w = g v ∨ (w ∈ s.works ∧ LeftAlone s t w.workId) := by
  rw [hworks] at hw
  rcases (Table.mem_modify_row hg workMem).mp hw with ⟨hw, hne⟩ | rfl
  · refine Or.inr ⟨hw, .of_rounds (fun x hx => ?_) hprepared hreceipts⟩
    rw [hattempts]
    exact rounds_modify hf hwork mem (fun hid => hne (hid.symm.trans ofWork)) x hx
  · exact Or.inl rfl

/-- Rows of another work are appended to a table that is listed by work. -/
theorem filter_insert {ρ κ : Type} {key : ρ → κ} [DecidableEq κ] {rows rows' : Table key} {r : ρ}
    {workId : Uuid} {of : ρ → Uuid} (h : rows.insert? r = some rows') (hne : of r ≠ workId) :
    rows'.rows.filter (of · == workId) = rows.rows.filter (of · == workId) := by
  rw [Table.insert?_rows h, List.filter_append]
  simp [hne]

theorem preparedKeys_confirm (workId id : Uuid) (deliveryKey : String) :
    (confirmPrepared workId deliveryKey s).preparedKeys id = s.preparedKeys id := by
  have hrows : (confirmPrepared workId deliveryKey s).preparedOf id =
      (s.preparedOf id).map fun p => if decide (p.key = (workId, deliveryKey)) then
        { p with descriptor := { p.descriptor with confirmed := true } } else p :=
    Table.filter_update (by intro _; rfl) fun _ => rfl
  rw [Db.preparedKeys, hrows, List.map_map]
  apply List.map_congr_left
  intro p _
  simp only [Function.comp]
  split <;> rfl

/-- **Inversion.** A work that is ended after a transition was ended by it, or was
ended before and nothing of it changed. -/
theorem trans_terminal (h : Trans cfg mode s t) (hs : Shape s) {w : Work} (hw : w ∈ t.works)
    (ht : w.state.terminal = true) :
    Ended cfg mode s t w ∨ (w ∈ s.works ∧ LeftAlone s t w.workId) := by
  cases h with
  | @enqueue v a works attempts _ queued _ _ fresh hwi ha =>
    rcases (Table.mem_insert? hwi).mp hw with hw | rfl
    · refine Or.inr ⟨hw, .of_rounds (rounds_insert ha ?_) rfl rfl⟩
      rw [fresh.ofWork]
      exact fun hid => Table.insert?_fresh hwi w hw hid.symm
    · rw [queued] at ht
      cases ht
  | @hand v a now drain token host idle mem workMem ofWork queued _ =>
    rcases leftAlone_of_move hw _ _ (by intro _; rfl) (by intro _; rfl) (by intro _; rfl) mem workMem
      ofWork rfl rfl rfl rfl with rfl | h
    · cases ht
    · exact Or.inr h
  | @resume v a now drain token host held keeps =>
    rcases leftAlone_of_move hw _ _ (by intro _; rfl) (by intro _; rfl) (by intro _; rfl) held.mem
      held.workMem held.ofWork rfl rfl rfl rfl with rfl | h
    · cases ht
    · exact Or.inr h
  | @block v a held =>
    rcases leftAlone_of_move hw _ _ (by intro _; rfl) (by intro _; rfl) (by intro _; rfl) held.mem
      held.workMem held.ofWork rfl rfl rfl rfl with rfl | h
    · cases ht
    · exact Or.inr h
  | @freeze v m workMem accepting _ =>
    rcases (Table.mem_modify_row (by intro _; rfl) workMem).mp hw with ⟨hw, _⟩ | rfl
    · exact Or.inr ⟨hw, .of_eq rfl rfl rfl⟩
    · exact absurd rfl (hs.ne_of_accepting accepting workMem ht)
  | @prepare v a p prepared utc _ held ofWork _ _ _ hp =>
    refine Or.inr ⟨hw, fun _ _ => Iff.rfl, ?_, rfl⟩
    have hne : p.workId ≠ w.workId := ofWork ▸ hs.ne_of_held held hw ht
    exact congrArg (List.map _) (filter_insert hp hne)
  | confirm workId deliveryKey =>
    exact Or.inr ⟨hw, fun _ _ => Iff.rfl, preparedKeys_confirm workId w.workId deliveryKey, rfl⟩
  | @receipt r receipts accepting hr =>
    refine Or.inr ⟨hw, fun _ _ => Iff.rfl, rfl, ?_⟩
    exact filter_insert hr (hs.ne_of_accepting accepting hw ht)
  | @close v a held _ =>
    have hne := hs.ne_of_held held hw ht
    exact Or.inr ⟨hw, .of_rounds (rounds_modify (by intro _; rfl) (by intro _; rfl) held.mem
      (held.ofWork ▸ hne)) rfl rfl⟩
  | @drain v a held _ =>
    have hne := hs.ne_of_held held hw ht
    exact Or.inr ⟨hw, .of_rounds (rounds_modify (by intro _; rfl) (by intro _; rfl) held.mem
      (held.ofWork ▸ hne)) rfl rfl⟩
  | @retry v a b attempts utc r _ held _ _ fresh hb =>
    have hworks : (s.requeue a utc r).works = s.works.modify v.workId ({ · with state := .queued }) := by
      rw [← held.ofWork]
      rfl
    rcases leftAlone_of_move (t := s.requeue a utc r) hw _ _ (by intro _; rfl) (by intro _; rfl)
      (by intro _; rfl) held.mem held.workMem held.ofWork rfl hworks rfl rfl with rfl | ⟨hw, hl⟩
    · cases ht
    · have hne := hs.ne_of_held held hw ht
      refine Or.inr ⟨hw, .of_rounds (fun x hx => ?_) rfl rfl⟩
      exact (rounds_insert hb (fresh.ofWork ▸ hne) x hx).trans (hl.rounds x hx)
  | @finish v a utc r validated held closed checked domain =>
    have hworks : (s.finish a utc r).works = s.works.modify v.workId
        fun w => { w with state := r.outcome.workState, completedAt := some utc } := by
      rw [← held.ofWork]
      rfl
    rcases leftAlone_of_move hw _ _ (by intro _; rfl) (by intro _; rfl) (by intro _; rfl) held.mem
      held.workMem held.ofWork rfl hworks rfl rfl with rfl | h
    · exact Or.inl (.settled utc r validated held closed checked domain rfl)
    · exact Or.inr h
  | @cancelQueued v now workMem queued kept ended =>
    rcases (Table.mem_modify_row (by intro _; rfl) workMem).mp hw with ⟨hw, _⟩ | rfl
    · exact Or.inr ⟨hw, .of_rounds (rounds_update (by intro _; rfl) (by intro _; rfl)
        (hs.settled_of_terminal hw ht)) rfl rfl⟩
    · exact Or.inl (.cancelled now workMem queued kept ended rfl)
  | drainQueued workId =>
    exact Or.inr ⟨hw, .of_rounds (rounds_update (by intro _; rfl) (by intro _; rfl)
      (hs.settled_of_terminal hw ht)) rfl rfl⟩
  | @reopen v a attempts _ workMem _ _ ended fresh ha =>
    rcases (Table.mem_modify_row (by intro _; rfl) workMem).mp hw with ⟨hw, hne⟩ | rfl
    · exact Or.inr ⟨hw, .of_rounds (rounds_insert ha (by rw [fresh.ofWork]; exact Ne.symm hne))
        rfl rfl⟩
    · cases ht
  | @calendarClose v utc workMem _ _ =>
    rcases (Table.mem_modify_row (by intro _; rfl) workMem).mp hw with ⟨hw, _⟩ | rfl
    · exact Or.inr ⟨hw, .of_eq rfl rfl rfl⟩
    · cases ht
  | _ => exact Or.inr ⟨hw, .of_eq rfl rfl rfl⟩

/-! ## When a work ended -/

def EndedIn (s : Db) (workId : Uuid) : Prop :=
  ∃ w ∈ s.works, w.workId = workId ∧ w.state.terminal = true

/-- The rows other services write are read only here. -/
structure SameFacts (s t : Db) : Prop where
  registry : t.registry = s.registry
  evidence : t.evidence = s.evidence
  issues : t.issues = s.issues
  noData : t.noData = s.noData

theorem trans_facts (h : Trans cfg mode s t) : SameFacts s t := by
  cases h <;> exact ⟨rfl, rfl, rfl, rfl⟩

/-- What holds of a work when a transition ends it, and depends on nothing but its
own rows and the facts, still holds when the operation is over. -/
theorem transs_ended_now {Q : Db → Work → Prop}
    (hend : ∀ s t w, Shape s → Ended cfg mode s t w → Q t w)
    (hkeep : ∀ s t w, SameFacts s t → LeftAlone s t w.workId → Q s w → Q t w)
    (h : Transs cfg mode s t) (hs : Shape s) {w : Work} (hw : w ∈ t.works)
    (hterm : w.state.terminal = true) (hbefore : ¬ EndedIn s w.workId) : Q t w := by
  induction h with
  | refl => exact absurd ⟨w, hw, rfl, hterm⟩ hbefore
  | @tail u v hsu huv ih =>
    have hshape : Shape u := transs_inv (fun _ _ => trans_shape) hsu hs
    rcases trans_terminal huv hshape hw hterm with hended | ⟨hw, hl⟩
    · exact hend u v w hshape hended
    · exact hkeep u v w (trans_facts huv) hl (ih hw)

/-- An ended work that is still ended after a transition was left alone. -/
theorem trans_leftAlone (h : Trans cfg mode s t) (hs : Shape s) {w w' : Work} (hw : w ∈ s.works)
    (ht : w.state.terminal = true) (hw' : w' ∈ t.works) (hid : w'.workId = w.workId)
    (ht' : w'.state.terminal = true) : w' = w ∧ LeftAlone s t w.workId := by
  rcases trans_terminal h hs hw' ht' with hended | ⟨hold, hl⟩
  · cases hended with
    | settled _ _ _ held =>
      have hne := hs.ne_of_held held hw ht
      exact absurd hid hne
    | cancelled _ workMem queued =>
      rw [Table.eq_of_key workMem hw hid] at queued
      rw [queued] at ht
      cases ht
  · exact ⟨Table.eq_of_key hold hw hid, hid ▸ hl⟩

/-- A calendar-closed work stays so. -/
theorem trans_calendarClosed (h : Trans cfg mode s t) (hs : Shape s) {w w' : Work} (hw : w ∈ s.works)
    (hc : w.state = .calendarClosed) (hw' : w' ∈ t.works) (hid : w'.workId = w.workId) :
    w'.state = .calendarClosed := by
  have hfree : ¬ Holds s w := by
    rintro ⟨a, held⟩
    rcases (hs.held held).2.1 with hst | hst <;> rw [hc] at hst <;> cases hst
  cases trans_workMoved h hw hw' hid with
  | kept => exact hc
  | frozen => exact hc
  | started queued | cancelled _ queued => rw [hc] at queued; cases queued
  | resumed holds | blocked holds | requeued holds | settled holds => exact absurd holds hfree
  | reopened _ _ ended => rcases ended with he | he <;> rw [hc] at he <;> cases he
  | calendarClosed => rfl

/-- Without a repair an ended work is left alone, or its day is closed. -/
theorem transs_ended {w : Work} (h : Transs cfg .unrepaired s t) (hs : Shape s) (hw : w ∈ s.works)
    (hterm : w.state.terminal = true) :
    (w ∈ t.works ∧ LeftAlone s t w.workId) ∨
      ∃ v ∈ t.works, v.workId = w.workId ∧ v.state = .calendarClosed := by
  induction h with
  | refl => exact Or.inl ⟨hw, .refl s w.workId⟩
  | @tail u v hsu huv ih =>
    have hshape : Shape u := transs_inv (fun _ _ => trans_shape) hsu hs
    rcases ih with ⟨hw, hsame⟩ | ⟨x, hx, hid, hc⟩
    · obtain ⟨w', hw', hid⟩ := trans_keepsWorks huv w hw
      cases hmove : w'.state.terminal with
      | true =>
        obtain ⟨rfl, hl⟩ := trans_leftAlone huv hshape hw hterm hw' hid.workId hmove
        exact Or.inl ⟨hw', hsame.trans hl⟩
      | false =>
        -- the row moved, and an ended one can only be reopened or closed
        refine Or.inr ⟨w', hw', hid.workId, ?_⟩
        cases trans_workMoved huv hw hw' hid.workId with
        | kept => rw [hterm] at hmove; cases hmove
        | started queued | cancelled _ queued => rw [queued] at hterm; cases hterm
        | resumed holds | blocked holds | requeued holds | settled holds =>
          obtain ⟨a, held⟩ := holds
          exact absurd rfl (hshape.ne_of_held held hw hterm)
        | frozen m accepting => exact absurd rfl (hshape.ne_of_accepting accepting hw hterm)
        | reopened allowed => exact allowed.elim
        | calendarClosed => rfl
    · obtain ⟨x', hx', hsame⟩ := trans_keepsWorks huv x hx
      exact Or.inr ⟨x', hx', hsame.workId.trans hid,
        trans_calendarClosed huv hshape hx hc hx' hsame.workId⟩

/-- A work that is ended after a repair was left alone by it. -/
theorem repairApply_ended {utc : Instant} {newId : Uuid} {repairIds : Nat → Uuid}
    {r : RepairApply} (h : repairApply cfg utc newId repairIds r s = .ok t) {w : Work}
    (hw : w ∈ t.works) (ht : w.state.terminal = true) : w ∈ s.works ∧ LeftAlone s t w.workId := by
  unfold repairApply at h
  obtain ⟨⟨work, planId, plan⟩, _, h⟩ := ok_bind h
  simp only at h
  split at h
  · unfold repairNew at h
    obtain ⟨_, _, h⟩ := ok_bind h
    obtain ⟨_, _, h⟩ := ok_bind h
    obtain ⟨_, _, h⟩ := ok_bind h
    obtain ⟨_, _, h⟩ := ok_bind h
    obtain ⟨s', hrows, h⟩ := ok_bind h
    obtain ⟨repairs, rfl⟩ := addRepairs_ok hrows
    unfold reopenEnded at h
    split at h
    · unfold reopen at h
      obtain ⟨s', ha, h⟩ := ok_bind h
      cases ok_pure h
      obtain ⟨a, attempts, hfresh, _, hins, rfl⟩ := addAttempt_ok ha
      rcases (Db.mem_setWork (by intro _; rfl)).mp hw with ⟨hw, hne⟩ | ⟨_, _, _, rfl⟩
      · refine ⟨hw, .of_rounds (rounds_insert hins ?_) rfl rfl⟩
        rw [hfresh.ofWork]
        exact Ne.symm hne
      · cases ht
    · cases h
      exact ⟨hw, .of_eq rfl rfl rfl⟩
  · obtain ⟨_, _, h⟩ := ok_bind h
    cases ok_pure h
    exact ⟨hw, .refl s w.workId⟩

theorem Env.shape {m : Db} (h : Env s m) (hs : Shape s) : Shape m :=
  hs.congr h.works h.attempts (by rw [h.owner])

/-- Between two states of a run in which a work is ended it is left alone. -/
theorem Reachable.ended_kept (h : Reachable cfg s) (op : Op) {w : Work}
    (hbefore : EndedIn s w.workId) (hw : w ∈ (apply cfg op s).works)
    (ht : w.state.terminal = true) : w ∈ s.works ∧ LeftAlone s (apply cfg op s) w.workId := by
  by_cases hre : op.reopens
  · cases op with
    | repairApply utc newId repairIds r =>
      simp only [apply] at hw ⊢
      cases hx : repairApply cfg utc newId repairIds r s with
      | error e =>
        rw [hx] at hw
        exact ⟨hw, .refl s w.workId⟩
      | ok t =>
        rw [hx] at hw
        exact repairApply_ended hx hw ht
    | _ => exact hre.elim
  · obtain ⟨m, henv, htrans⟩ := @apply_refines cfg .unrepaired s op h.requestsEnded False.elim
      (fun ho => absurd ho hre) fun _ => trivial
    obtain ⟨v, hv, hid, hterm⟩ := hbefore
    have hvm : v ∈ m.works := henv.works ▸ hv
    rcases transs_ended htrans (henv.shape h.shape) hvm hterm with ⟨hvt, hl⟩ | ⟨x, hx, hxid, hc⟩
    · have hvw : v = w := Table.eq_of_key hvt hw hid
      subst hvw
      exact ⟨hv, (LeftAlone.of_eq henv.attempts henv.prepared henv.receipts).trans hl⟩
    · rw [Table.eq_of_key hw hx (hid.symm.trans hxid.symm), hc] at ht
      cases ht

/-- Along operations that all leave the work ended it is left alone. -/
theorem ended_kept_run (ops : List Op) (h : Reachable cfg s) {w : Work}
    (hall : ∀ mid, mid <+: ops → EndedIn (runAll (apply cfg) mid s) w.workId)
    (hw : w ∈ (runAll (apply cfg) ops s).works) (ht : w.state.terminal = true) :
    w ∈ s.works ∧ LeftAlone s (runAll (apply cfg) ops s) w.workId := by
  induction ops generalizing s with
  | nil => exact ⟨hw, .refl s w.workId⟩
  | cons op ops ih =>
    have hlater : ∀ mid, mid <+: ops → EndedIn (runAll (apply cfg) mid (apply cfg op s)) w.workId :=
      fun mid hmid => hall (op :: mid) (by simpa using hmid)
    obtain ⟨hw', hl⟩ := ih (h.step op) hlater hw
    obtain ⟨hws, hstep⟩ := h.ended_kept op (hall [] List.nil_prefix) hw' ht
    exact ⟨hws, hstep.trans hl⟩

/-- The database after a list of operations. -/
def after (cfg : Config) (registry : Registry) (ops : List Op) : Db :=
  runAll (apply cfg) ops (Db.init registry)

theorem reachable_after (registry : Registry) (ops : List Op) :
    Reachable cfg (after cfg registry ops) := reachable_runAll registry ops

theorem after_append (registry : Registry) (xs ys : List Op) :
    after cfg registry (xs ++ ys) = runAll (apply cfg) ys (after cfg registry xs) :=
  runAll_append xs ys _

theorem steps_after (registry : Registry) (xs ys : List Op) :
    Steps cfg (after cfg registry xs) (after cfg registry (xs ++ ys)) := by
  rw [after_append]
  exact runAll_steps ys _ (admitted_of_forall (fun _ _ => trivial) ys _)

/-- The operation of a run that ended a work for good: the work was not ended
before it and has stayed ended since. -/
structure EndedBy (cfg : Config) (registry : Registry) (ops pre : List Op) (op : Op)
    (workId : Uuid) : Prop where
  before : ¬ EndedIn (after cfg registry pre) workId
  since : ∀ mid, pre ++ op :: mid <+: ops → EndedIn (after cfg registry (pre ++ op :: mid)) workId

/-- **When a work ended.** Every ended work of a run has the operation that ended
it and has been left alone since; what a transition establishes when it ends a
work held when that operation was over. -/
theorem exists_endedBy {Q : Db → Work → Prop}
    (hend : ∀ s t w, Shape s → Ended cfg .free s t w → Q t w)
    (hkeep : ∀ s t w, SameFacts s t → LeftAlone s t w.workId → Q s w → Q t w)
    (registry : Registry) (ops : List Op) {w : Work} (hw : w ∈ (after cfg registry ops).works)
    (ht : w.state.terminal = true) :
    ∃ pre op post, ops = pre ++ op :: post ∧ EndedBy cfg registry ops pre op w.workId ∧
      w ∈ (after cfg registry (pre ++ [op])).works ∧
      LeftAlone (after cfg registry (pre ++ [op])) (after cfg registry ops) w.workId ∧
      Q (after cfg registry (pre ++ [op])) w := by
  have hstart : ¬ EndedIn (Db.init registry) w.workId := by
    rintro ⟨v, hv, _⟩
    exact Table.not_mem_empty v hv
  obtain ⟨pre, op, post, rfl, hpre, hpost⟩ :=
    exists_entry (P := fun s => EndedIn s w.workId) ops (Db.init registry) hstart ⟨w, hw, rfl, ht⟩
  refine ⟨pre, op, post, rfl, ⟨hpre, fun mid hmid => hpost mid ?_⟩, ?_⟩
  · simpa using hmid
  have hsplit : after cfg registry (pre ++ op :: post) =
      runAll (apply cfg) post (after cfg registry (pre ++ [op])) := by
    rw [← after_append]
    simp
  have hlater : ∀ mid, mid <+: post →
      EndedIn (runAll (apply cfg) mid (after cfg registry (pre ++ [op]))) w.workId := by
    intro mid hmid
    rw [← after_append, ← List.append_cons]
    exact hpost mid hmid
  rw [hsplit] at hw ⊢
  obtain ⟨hwv, hl⟩ := ended_kept_run post (reachable_after registry (pre ++ [op])) hlater hw ht
  refine ⟨hwv, hl, ?_⟩
  have hstep : after cfg registry (pre ++ [op]) = apply cfg op (after cfg registry pre) :=
    after_append registry pre [op]
  have hreach : Reachable cfg (after cfg registry pre) := reachable_after registry pre
  obtain ⟨m, henv, htrans⟩ := @apply_refines cfg .free _ op hreach.requestsEnded False.elim
    (fun _ => trivial) fun _ => trivial
  rw [hstep] at hwv ⊢
  refine transs_ended_now hend hkeep htrans (henv.shape hreach.shape) hwv ht ?_
  rw [EndedIn, henv.works]
  exact hpre

end FinDB.ProviderWork
