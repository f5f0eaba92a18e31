import FinDB.ProviderWork.Invariants

/-! # One owner

Every work has a last round, and the state of the work tells the state of that
round and whether it holds the provider; every earlier round is settled. The
invariant is kept by four kinds of change: the last round and its work are
rewritten together, a round is appended, a work is enqueued, or only the work's
state moves. -/
namespace FinDB.ProviderWork
open FinDB.Lib Relation

variable {cfg : Config} {mode : Mode} {s t : Db}

/-! ## The invariant -/

theorem mem_attemptsOf {workId : Uuid} {a : Attempt} :
    a ∈ s.attemptsOf workId ↔ a ∈ s.attempts ∧ a.workId = workId := by
  simp [Db.attemptsOf, Table.mem_def]

/-- The last round of a work in state `st`, when the owner slot holds `owned`. -/
def Tail (owned : Option Uuid) (st : WorkState) (last : Attempt) : Prop :=
  match st with
  | .queued => last.state = .queued ∧ owned ≠ some last.attemptId
  | .running | .recoveryBlocked => last.state.active = true ∧ owned = some last.attemptId
  | .calendarClosed =>
    (last.state = .queued ∨ last.state = .settled) ∧ owned ≠ some last.attemptId
  | .completed | .partly | .failed | .cancelled =>
    last.state = .settled ∧ owned ≠ some last.attemptId

/-- The rounds of a work: all but the last are settled, and none is missing. -/
structure Rounds (s : Db) (w : Work) (last : Attempt) : Prop where
  mem : last ∈ s.attempts
  ofWork : last.workId = w.workId
  pos : 1 ≤ last.attemptNumber
  tail : Tail s.owner.attemptId w.state last
  earlier : ∀ a ∈ s.attempts, a.workId = w.workId → a.attemptId ≠ last.attemptId →
    a.state = .settled ∧ s.owner.attemptId ≠ some a.attemptId ∧
      1 ≤ a.attemptNumber ∧ a.attemptNumber < last.attemptNumber
  full : ∀ k, 1 ≤ k → k ≤ last.attemptNumber →
    ∃ a ∈ s.attempts, a.workId = w.workId ∧ a.attemptNumber = k

structure Shape (s : Db) : Prop where
  parent : ∀ a ∈ s.attempts, ∃ w ∈ s.works, w.workId = a.workId
  ownedMem : ∀ k, s.owner.attemptId = some k → ∃ a ∈ s.attempts, a.attemptId = k
  numbers : ∀ a ∈ s.attempts, ∀ b ∈ s.attempts, a.workId = b.workId →
    a.attemptNumber = b.attemptNumber → a = b
  rounds : ∀ w ∈ s.works, ∃ last, Rounds s w last

theorem Shape.congr (h : Shape s) (hw : t.works = s.works) (ha : t.attempts = s.attempts)
    (ho : t.owner.attemptId = s.owner.attemptId) : Shape t := by
  refine ⟨?_, ?_, ?_, ?_⟩
  · rw [hw, ha]; exact h.parent
  · rw [ho, ha]; exact h.ownedMem
  · rw [ha]; exact h.numbers
  · rw [hw]
    intro w hmem
    obtain ⟨last, hr⟩ := h.rounds w hmem
    refine ⟨last, ?_, hr.ofWork, hr.pos, ?_, ?_, ?_⟩
    · rw [ha]; exact hr.mem
    · rw [ho]; exact hr.tail
    · rw [ho, ha]; exact hr.earlier
    · rw [ha]; exact hr.full

/-- A round that is not settled is the last of its work. -/
theorem Rounds.last_of_unsettled {w : Work} {last a : Attempt} (h : Rounds s w last)
    (ha : a ∈ s.attempts) (hof : a.workId = w.workId) (hs : a.state ≠ .settled) : a = last := by
  by_cases hk : a.attemptId = last.attemptId
  · exact Table.eq_of_key ha h.mem hk
  · exact absurd (h.earlier a ha hof hk).1 hs

theorem Tail.settled_of_terminal {owned : Option Uuid} {st : WorkState} {last : Attempt}
    (h : Tail owned st last) (ht : st.terminal = true) :
    last.state = .settled ∧ owned ≠ some last.attemptId := by
  cases st <;> simp_all [Tail, WorkState.terminal]

theorem Tail.owned {owned : Option Uuid} {st : WorkState} {last : Attempt}
    (h : Tail owned st last) (hactive : last.state.active = true) :
    owned = some last.attemptId := by
  have hqueued : last.state ≠ .queued := by
    intro he
    rw [he] at hactive
    cases hactive
  have hsettled : last.state ≠ .settled := by
    intro he
    rw [he] at hactive
    cases hactive
  cases st <;> simp_all [Tail]

/-- The round that holds the provider is the active last round of a running work. -/
theorem Shape.held {w : Work} {a : Attempt} (h : Shape s) (held : Held s w a) :
    a.state.active = true ∧ (w.state = .running ∨ w.state = .recoveryBlocked) ∧
      Rounds s w a := by
  obtain ⟨last, hr⟩ := h.rounds w held.workMem
  have hlast : a = last := by
    by_cases hk : a.attemptId = last.attemptId
    · exact Table.eq_of_key held.mem hr.mem hk
    · exact absurd held.owned (hr.earlier a held.mem held.ofWork hk).2.1
  subst hlast
  have htail := hr.tail
  cases hst : w.state <;> simp_all [Tail, held.owned]

/-- Only whether the last round is the owned one matters of the owner slot. -/
theorem Tail.congr {o o' : Option Uuid} {st : WorkState} {last : Attempt}
    (ho : o' = some last.attemptId ↔ o = some last.attemptId) (h : Tail o st last) :
    Tail o' st last := by
  cases st <;> simp_all [Tail]

/-- A work whose rounds are left alone keeps them. -/
theorem Rounds.frame {w : Work} {last : Attempt} (h : Rounds s w last)
    (hrows : ∀ x, x.workId = w.workId → (x ∈ t.attempts ↔ x ∈ s.attempts))
    (howner : ∀ x ∈ s.attempts, x.workId = w.workId →
      (t.owner.attemptId = some x.attemptId ↔ s.owner.attemptId = some x.attemptId)) :
    Rounds t w last := by
  refine ⟨(hrows last h.ofWork).mpr h.mem, h.ofWork, h.pos,
    h.tail.congr (howner last h.mem h.ofWork), ?_, ?_⟩
  · intro a ha hof hne
    have ha' := (hrows a hof).mp ha
    obtain ⟨h1, h2, h3⟩ := h.earlier a ha' hof hne
    exact ⟨h1, fun ho => h2 ((howner a ha' hof).mp ho), h3⟩
  · intro k hk1 hk2
    obtain ⟨a, ha, hof, hn⟩ := h.full k hk1 hk2
    exact ⟨a, (hrows a hof).mpr ha, hof, hn⟩

/-! ## The four kinds of change -/

/-- The last round and its work are rewritten, and no other round changes hands. -/
theorem Shape.replace (h : Shape s) {w q : Work} {a b : Attempt} (hw : w ∈ s.works)
    (ha : a ∈ s.attempts) (hof : a.workId = w.workId) (hopen : a.state ≠ .settled)
    (hid : b.attemptId = a.attemptId) (hwork : b.workId = a.workId)
    (hnum : b.attemptNumber = a.attemptNumber) (hwid : q.workId = w.workId)
    (hattempts : ∀ x, x ∈ t.attempts ↔ (x ∈ s.attempts ∧ x.attemptId ≠ a.attemptId) ∨ x = b)
    (hworks : ∀ x, x ∈ t.works ↔ (x ∈ s.works ∧ x.workId ≠ w.workId) ∨ x = q)
    (howner : ∀ k, k ≠ a.attemptId → (t.owner.attemptId = some k ↔ s.owner.attemptId = some k))
    (htail : Tail t.owner.attemptId q.state b) : Shape t := by
  -- a round of `t` is the rewritten one, or an untouched one of `s`
  have hback : ∀ x ∈ t.attempts, ∃ y ∈ s.attempts, y.attemptId = x.attemptId ∧
      y.workId = x.workId ∧ y.attemptNumber = x.attemptNumber := by
    intro x hx
    rcases (hattempts x).mp hx with ⟨hx, _⟩ | rfl
    · exact ⟨x, hx, rfl, rfl, rfl⟩
    · exact ⟨a, ha, hid.symm, hwork.symm, hnum.symm⟩
  have hforth : ∀ y ∈ s.attempts, ∃ x ∈ t.attempts, x.attemptId = y.attemptId ∧
      x.workId = y.workId ∧ x.attemptNumber = y.attemptNumber := by
    intro y hy
    by_cases hk : y.attemptId = a.attemptId
    · have hya := Table.eq_of_key hy ha hk
      subst hya
      exact ⟨b, (hattempts b).mpr (Or.inr rfl), hid, hwork, hnum⟩
    · exact ⟨y, (hattempts y).mpr (Or.inl ⟨hy, hk⟩), rfl, rfl, rfl⟩
  obtain ⟨last, hr⟩ := h.rounds w hw
  have hlast := hr.last_of_unsettled ha hof hopen
  subst hlast
  refine ⟨?_, ?_, ?_, ?_⟩
  · intro x hx
    obtain ⟨y, hy, _, hyw, _⟩ := hback x hx
    obtain ⟨v, hv, hvw⟩ := h.parent y hy
    by_cases hk : v.workId = w.workId
    · exact ⟨q, (hworks q).mpr (Or.inr rfl), by rw [hwid, ← hk, hvw, hyw]⟩
    · exact ⟨v, (hworks v).mpr (Or.inl ⟨hv, hk⟩), hvw.trans hyw⟩
  · intro k hk
    by_cases hka : k = a.attemptId
    · exact ⟨b, (hattempts b).mpr (Or.inr rfl), hid.trans hka.symm⟩
    · obtain ⟨y, hy, hyk⟩ := h.ownedMem k ((howner k hka).mp hk)
      obtain ⟨x, hx, hxk, _⟩ := hforth y hy
      exact ⟨x, hx, hxk.trans hyk⟩
  · intro x hx y hy hxy hn
    obtain ⟨x₀, hx₀, hxk, hxw, hxn⟩ := hback x hx
    obtain ⟨y₀, hy₀, hyk, hyw, hyn⟩ := hback y hy
    have heq := h.numbers x₀ hx₀ y₀ hy₀ (by rw [hxw, hyw, hxy]) (by rw [hxn, hyn, hn])
    exact Table.eq_of_key hx hy (by rw [← hxk, heq, hyk])
  · intro v hv
    rcases (hworks v).mp hv with ⟨hv, hne⟩ | rfl
    · -- another work: none of its rounds is the rewritten one
      obtain ⟨last, hl⟩ := h.rounds v hv
      have hother : ∀ x ∈ s.attempts, x.workId = v.workId → x.attemptId ≠ a.attemptId := by
        intro x hx hxv hxa
        rw [Table.eq_of_key hx ha hxa, hof] at hxv
        exact hne hxv.symm
      refine ⟨last, hl.frame (fun x hxv => ⟨fun hx => ?_, fun hx => ?_⟩)
        fun x hx hxv => howner x.attemptId (hother x hx hxv)⟩
      · rcases (hattempts x).mp hx with ⟨hx, _⟩ | rfl
        · exact hx
        · exact absurd (hof.symm.trans (hwork.symm.trans hxv)) (Ne.symm hne)
      · exact (hattempts x).mpr (Or.inl ⟨hx, hother x hx hxv⟩)
    · refine ⟨b, (hattempts b).mpr (Or.inr rfl), by rw [hwork, hof, hwid], hnum ▸ hr.pos, htail,
        ?_, ?_⟩
      · intro x hx hxv hxl
        rcases (hattempts x).mp hx with ⟨hx, hxa⟩ | rfl
        · obtain ⟨h1, h2, h3, h4⟩ := hr.earlier x hx (hxv.trans hwid) hxa
          exact ⟨h1, fun ho => h2 ((howner x.attemptId hxa).mp ho), h3, hnum ▸ h4⟩
        · exact absurd rfl hxl
      · intro k hk1 hk2
        obtain ⟨y, hy, hyv, hyk⟩ := hr.full k hk1 (hnum ▸ hk2)
        obtain ⟨x, hx, _, hxw, hxn⟩ := hforth y hy
        exact ⟨x, hx, by rw [hxw, hyv, hwid], hxn.trans hyk⟩

/-- A work without an active round gets the next one. -/
theorem Shape.append (h : Shape s) {w q : Work} {last a : Attempt} (hw : w ∈ s.works)
    (hr : Rounds s w last) (hsettled : last.state = .settled)
    (hfree : s.owner.attemptId ≠ some last.attemptId)
    (fresh : Fresh a w.workId (last.attemptNumber + 1))
    (hnew : ∀ x ∈ s.attempts, x.attemptId ≠ a.attemptId)
    (hwid : q.workId = w.workId) (hqueued : q.state = .queued)
    (hattempts : ∀ x, x ∈ t.attempts ↔ x ∈ s.attempts ∨ x = a)
    (hworks : ∀ x, x ∈ t.works ↔ (x ∈ s.works ∧ x.workId ≠ w.workId) ∨ x = q)
    (howner : t.owner.attemptId = s.owner.attemptId) : Shape t := by
  have hunowned : s.owner.attemptId ≠ some a.attemptId := by
    intro ho
    obtain ⟨x, hx, hxa⟩ := h.ownedMem _ ho
    exact hnew x hx hxa
  -- the numbers of the work so far end at the last round's
  have hle : ∀ x ∈ s.attempts, x.workId = w.workId → x.attemptNumber ≤ last.attemptNumber := by
    intro x hx hxw
    by_cases hk : x.attemptId = last.attemptId
    · rw [Table.eq_of_key hx hr.mem hk]
    · exact (hr.earlier x hx hxw hk).2.2.2.le
  refine ⟨?_, ?_, ?_, ?_⟩
  · intro x hx
    have hold : ∃ v ∈ s.works, v.workId = x.workId := by
      rcases (hattempts x).mp hx with hx | rfl
      · exact h.parent x hx
      · exact ⟨w, hw, fresh.ofWork.symm⟩
    obtain ⟨v, hv, hvx⟩ := hold
    by_cases hk : v.workId = w.workId
    · exact ⟨q, (hworks q).mpr (Or.inr rfl), by rw [hwid, ← hk, hvx]⟩
    · exact ⟨v, (hworks v).mpr (Or.inl ⟨hv, hk⟩), hvx⟩
  · intro k hk
    obtain ⟨x, hx, hxk⟩ := h.ownedMem k (howner ▸ hk)
    exact ⟨x, (hattempts x).mpr (Or.inl hx), hxk⟩
  · intro x hx y hy hxy hn
    rcases (hattempts x).mp hx with hx | rfl <;> rcases (hattempts y).mp hy with hy | rfl
    · exact h.numbers x hx y hy hxy hn
    · have := hle x hx (hxy.trans fresh.ofWork)
      rw [hn, fresh.number] at this
      omega
    · have := hle y hy (hxy.symm.trans fresh.ofWork)
      rw [← hn, fresh.number] at this
      omega
    · rfl
  · intro v hv
    rcases (hworks v).mp hv with ⟨hv, hne⟩ | rfl
    · obtain ⟨l, hl⟩ := h.rounds v hv
      refine ⟨l, hl.frame (fun x hxv => ⟨fun hx => ?_, fun hx => (hattempts x).mpr (Or.inl hx)⟩)
        fun x _ _ => by rw [howner]⟩
      rcases (hattempts x).mp hx with hx | rfl
      · exact hx
      · exact absurd (fresh.ofWork.symm.trans hxv) (Ne.symm hne)
    · refine ⟨a, (hattempts a).mpr (Or.inr rfl), by rw [fresh.ofWork, hwid],
        by rw [fresh.number]; omega, ?_, ?_, ?_⟩
      · rw [hqueued, howner]
        exact ⟨fresh.queued, hunowned⟩
      · intro x hx hxv hxa
        rw [hwid] at hxv
        rcases (hattempts x).mp hx with hx | rfl
        · rw [howner, fresh.number]
          by_cases hk : x.attemptId = last.attemptId
          · rw [Table.eq_of_key hx hr.mem hk]
            exact ⟨hsettled, hfree, hr.pos, by omega⟩
          · obtain ⟨h1, h2, h3, h4⟩ := hr.earlier x hx hxv hk
            exact ⟨h1, h2, h3, by omega⟩
        · exact absurd rfl hxa
      · intro k hk1 hk2
        rw [fresh.number] at hk2
        by_cases hk : k = last.attemptNumber + 1
        · exact ⟨a, (hattempts a).mpr (Or.inr rfl), by rw [fresh.ofWork, hwid], by rw [fresh.number, hk]⟩
        · obtain ⟨x, hx, hxw, hxn⟩ := hr.full k hk1 (by omega)
          exact ⟨x, (hattempts x).mpr (Or.inl hx), hxw.trans hwid.symm, hxn⟩

/-- A new work comes with its first round. -/
theorem Shape.enqueue (h : Shape s) {w : Work} {a : Attempt} {works attempts} {n : Nat}
    (queued : w.state = .queued) (fresh : Fresh a w.workId 1)
    (hw : s.works.insert? w = some works) (ha : s.attempts.insert? a = some attempts) :
    Shape { s with works, attempts, queueSeq := n } := by
  have hnew : ∀ x ∈ s.attempts, x.workId ≠ w.workId := by
    intro x hx hxw
    obtain ⟨v, hv, hvx⟩ := h.parent x hx
    exact Table.insert?_fresh hw v hv (hvx.trans hxw)
  have hunowned : s.owner.attemptId ≠ some a.attemptId := by
    intro ho
    obtain ⟨x, hx, hxa⟩ := h.ownedMem _ ho
    exact Table.insert?_fresh ha x hx hxa
  refine ⟨?_, ?_, ?_, ?_⟩
  · intro x hx
    rcases (Table.mem_insert? ha).mp hx with hx | rfl
    · obtain ⟨v, hv, hvx⟩ := h.parent x hx
      exact ⟨v, (Table.mem_insert? hw).mpr (Or.inl hv), hvx⟩
    · exact ⟨w, (Table.mem_insert? hw).mpr (Or.inr rfl), fresh.ofWork.symm⟩
  · intro k hk
    obtain ⟨x, hx, hxk⟩ := h.ownedMem k hk
    exact ⟨x, (Table.mem_insert? ha).mpr (Or.inl hx), hxk⟩
  · intro x hx y hy hxy hn
    rcases (Table.mem_insert? ha).mp hx with hx | rfl <;>
      rcases (Table.mem_insert? ha).mp hy with hy | rfl
    · exact h.numbers x hx y hy hxy hn
    · exact absurd (hxy.trans fresh.ofWork) (hnew x hx)
    · exact absurd (hxy.symm.trans fresh.ofWork) (hnew y hy)
    · rfl
  · intro v hv
    rcases (Table.mem_insert? hw).mp hv with hv | rfl
    · obtain ⟨l, hl⟩ := h.rounds v hv
      refine ⟨l, hl.frame (fun x hxv => ⟨fun hx => ?_,
        fun hx => (Table.mem_insert? ha).mpr (Or.inl hx)⟩) fun _ _ _ => Iff.rfl⟩
      rcases (Table.mem_insert? ha).mp hx with hx | rfl
      · exact hx
      · exact absurd (hxv.symm.trans fresh.ofWork) (Table.insert?_fresh hw v hv)
    · refine ⟨a, (Table.mem_insert? ha).mpr (Or.inr rfl), fresh.ofWork, by rw [fresh.number], ?_,
        ?_, ?_⟩
      · rw [queued]
        exact ⟨fresh.queued, hunowned⟩
      · intro x hx hxv hxa
        rcases (Table.mem_insert? ha).mp hx with hx | rfl
        · exact absurd hxv (hnew x hx)
        · exact absurd rfl hxa
      · intro k hk1 hk2
        rw [fresh.number] at hk2
        exact ⟨a, (Table.mem_insert? ha).mpr (Or.inr rfl), fresh.ofWork, by rw [fresh.number]; omega⟩

/-- Only columns of one work move, to a state that fits its last round. -/
theorem Shape.restate (h : Shape s) {workId : Uuid} {f : Work → Work} {hf}
    (htail : ∀ w ∈ s.works, w.workId = workId → ∀ last, Tail s.owner.attemptId w.state last →
      Tail s.owner.attemptId (f w).state last) : Shape (s.setWork workId f hf) := by
  refine ⟨?_, h.ownedMem, h.numbers, ?_⟩
  · intro x hx
    obtain ⟨v, hv, hvx⟩ := h.parent x hx
    by_cases hk : v.workId = workId
    · exact ⟨f v, (Db.mem_setWork hf).mpr (Or.inr ⟨v, hv, hk, rfl⟩), (hf v).trans hvx⟩
    · exact ⟨v, (Db.mem_setWork hf).mpr (Or.inl ⟨hv, hk⟩), hvx⟩
  · intro v hv
    rcases (Db.mem_setWork hf).mp hv with ⟨hv, _⟩ | ⟨w, hw, hk, rfl⟩
    · obtain ⟨last, hr⟩ := h.rounds v hv
      exact ⟨last, hr.mem, hr.ofWork, hr.pos, hr.tail, hr.earlier, hr.full⟩
    · obtain ⟨last, hr⟩ := h.rounds w hw
      have hid : (f w).workId = w.workId := hf w
      refine ⟨last, hr.mem, hr.ofWork.trans hid.symm, hr.pos, htail w hw hk last hr.tail, ?_, ?_⟩
      · rw [hid]; exact hr.earlier
      · rw [hid]; exact hr.full

/-- Rounds are rewritten in columns the invariant does not read. -/
theorem Shape.recolor (h : Shape s) {p : Attempt → Bool} {f : Attempt → Attempt} {hf}
    (hwork : ∀ a, (f a).workId = a.workId) (hnum : ∀ a, (f a).attemptNumber = a.attemptNumber)
    (hstate : ∀ a, (f a).state = a.state) :
    Shape { s with attempts := s.attempts.update p f hf } := by
  let g : Attempt → Attempt := fun a => if p a then f a else a
  have gid : ∀ a, (g a).attemptId = a.attemptId := by
    intro a; by_cases hp : p a <;> simp [g, hp, hf]
  have gwork : ∀ a, (g a).workId = a.workId := by
    intro a; by_cases hp : p a <;> simp [g, hp, hwork]
  have gnum : ∀ a, (g a).attemptNumber = a.attemptNumber := by
    intro a; by_cases hp : p a <;> simp [g, hp, hnum]
  have gstate : ∀ a, (g a).state = a.state := by
    intro a; by_cases hp : p a <;> simp [g, hp, hstate]
  have hrows : ∀ x, x ∈ s.attempts.update p f hf ↔ ∃ y ∈ s.attempts, x = g y := by
    intro x
    exact Table.mem_update
  have hmem : ∀ a ∈ s.attempts, g a ∈ s.attempts.update p f hf := fun a ha =>
    (hrows _).mpr ⟨a, ha, rfl⟩
  refine ⟨?_, ?_, ?_, ?_⟩
  · intro x hx
    obtain ⟨y, hy, rfl⟩ := (hrows _).mp hx
    obtain ⟨v, hv, hvy⟩ := h.parent y hy
    exact ⟨v, hv, hvy.trans (gwork y).symm⟩
  · intro k hk
    obtain ⟨x, hx, hxk⟩ := h.ownedMem k hk
    exact ⟨g x, hmem x hx, (gid x).trans hxk⟩
  · intro x hx y hy hxy hn
    obtain ⟨x, hx', rfl⟩ := (hrows _).mp hx
    obtain ⟨y, hy', rfl⟩ := (hrows _).mp hy
    rw [gwork, gwork] at hxy
    rw [gnum, gnum] at hn
    rw [h.numbers x hx' y hy' hxy hn]
  · intro v hv
    obtain ⟨last, hr⟩ := h.rounds v hv
    refine ⟨g last, hmem last hr.mem, (gwork last).trans hr.ofWork, (gnum last).symm ▸ hr.pos, ?_,
      ?_, ?_⟩
    · have htl := hr.tail
      cases hst : v.state <;> simp_all [Tail]
    · intro x hx hxv hxl
      obtain ⟨y, hy, rfl⟩ := (hrows _).mp hx
      have hyv : y.workId = v.workId := (gwork y).symm.trans hxv
      have hyl : y.attemptId ≠ last.attemptId := by
        intro he
        exact hxl ((gid y).trans (he.trans (gid last).symm))
      obtain ⟨h1, h2, h3, h4⟩ := hr.earlier y hy hyv hyl
      exact ⟨(gstate y).trans h1, fun ho => h2 (ho.trans (congrArg some (gid y))),
        h3.trans_eq (gnum y).symm, (gnum y).trans_lt (h4.trans_eq (gnum last).symm)⟩
    · intro k hk1 hk2
      obtain ⟨y, hy, hyv, hyk⟩ := hr.full k hk1 (hk2.trans_eq (gnum last))
      exact ⟨g y, hmem y hy, (gwork y).trans hyv, (gnum y).trans hyk⟩

/-! ## Every transition keeps it -/

theorem Held.unsettled {w : Work} {a : Attempt} (held : Held s w a) (h : Shape s) :
    a.state ≠ .settled := by
  intro hs
  have hactive := (h.held held).1
  rw [hs] at hactive
  cases hactive

/-- The held round and its work are rewritten; the slot keeps the round or is freed. -/
theorem Shape.moveHeld (h : Shape s) {w : Work} {a : Attempt} (held : Held s w a)
    (f : Attempt → Attempt) (g : Work → Work) (hf : ∀ a, (f a).attemptId = a.attemptId)
    (hwork : ∀ a, (f a).workId = a.workId) (hnum : ∀ a, (f a).attemptNumber = a.attemptNumber)
    (hg : ∀ w, (g w).workId = w.workId)
    (hattempts : t.attempts = s.attempts.modify a.attemptId f hf)
    (hworks : t.works = s.works.modify w.workId g hg)
    (howner : t.owner.attemptId = some a.attemptId ∨ t.owner.attemptId = none)
    (htail : Tail t.owner.attemptId (g w).state (f a)) : Shape t := by
  refine h.replace held.workMem held.mem held.ofWork (held.unsettled h) (hf a) (hwork a) (hnum a)
    (hg w) ?_ ?_ ?_ htail
  · rw [hattempts]
    exact fun x => Table.mem_modify_row hf held.mem
  · rw [hworks]
    exact fun x => Table.mem_modify_row hg held.workMem
  · intro k hk
    have hne : a.attemptId ≠ k := hk.symm
    rcases howner with ho | ho <;> simp [ho, held.owned, hne]

/-- Only the state of the held round moves, and it stays active. -/
theorem Shape.moveRound (h : Shape s) {w : Work} {a : Attempt} (held : Held s w a)
    (st : AttemptState) (hactive : st.active = true) :
    Shape (s.setAttempt a.attemptId ({ · with state := st })) := by
  obtain ⟨_, hstate, _⟩ := h.held held
  refine h.replace (b := { a with state := st }) held.workMem held.mem held.ofWork
    (held.unsettled h) rfl rfl rfl rfl (fun x => Table.mem_modify_row (by intro _; rfl) held.mem)
    (fun x => Table.mem_row held.workMem) (fun _ _ => Iff.rfl) ?_
  rcases hstate with hst | hst <;> rw [hst] <;> exact ⟨hactive, held.owned⟩

theorem tail_of_terminal {st : WorkState} {a : Attempt} (ht : st.terminal = true)
    (ha : a.state = .settled) : Tail none st a := by
  cases st <;> simp_all [Tail, WorkState.terminal]

theorem Outcome.workState_terminal {o : Outcome} (h : o ≠ .retry) : o.workState.terminal = true := by
  cases o <;> simp_all [Outcome.workState, WorkState.terminal]

/-- The round a queued work waits with. -/
theorem Shape.queuedRound (h : Shape s) {w : Work} (hw : w ∈ s.works) (hq : w.state = .queued) :
    ∃ last, Rounds s w last ∧ last.state = .queued ∧ s.owner.attemptId ≠ some last.attemptId := by
  obtain ⟨last, hr⟩ := h.rounds w hw
  have htail := hr.tail
  rw [hq] at htail
  exact ⟨last, hr, htail⟩

theorem Shape.cancelQueued (h : Shape s) {w : Work} {now : Instant} (hw : w ∈ s.works)
    (hq : w.state = .queued) :
    Shape { s.setWork w.workId ({ · with state := .cancelled, completedAt := some now }) with
      attempts := s.attempts.update (queuedOf w.workId)
        ({ · with state := .settled, outcome := some .cancelled, settledAt := some now }) } := by
  obtain ⟨last, hr, hlast, hfree⟩ := h.queuedRound hw hq
  -- the queued rounds of the work are its last round alone
  have hiff : ∀ a ∈ s.attempts, queuedOf w.workId a = true ↔ a.attemptId = last.attemptId := by
    intro a ha
    simp only [queuedOf, Bool.and_eq_true, beq_iff_eq]
    constructor
    · rintro ⟨hof, hst⟩
      rw [hr.last_of_unsettled ha hof (by rw [hst]; decide)]
    · intro hk
      rw [Table.eq_of_key ha hr.mem hk]
      exact ⟨hr.ofWork, hlast⟩
  refine h.replace (a := last)
    (b := { last with state := .settled, outcome := some .cancelled, settledAt := some now })
    (q := { w with state := .cancelled, completedAt := some now }) hw hr.mem hr.ofWork
    (by rw [hlast]; decide) rfl rfl rfl rfl ?_ (fun x => Table.mem_modify_row (by intro _; rfl) hw)
    (fun _ _ => Iff.rfl) ⟨rfl, hfree⟩
  intro x
  rw [Table.mem_update]
  constructor
  · rintro ⟨y, hy, rfl⟩
    split
    · rename_i hp
      rw [Table.eq_of_key hy hr.mem ((hiff y hy).mp hp)]
      exact Or.inr rfl
    · rename_i hp
      exact Or.inl ⟨hy, fun hk => hp ((hiff y hy).mpr hk)⟩
  · rintro (⟨hx, hk⟩ | rfl)
    · exact ⟨x, hx, by simp [mt (hiff x hx).mp hk]⟩
    · exact ⟨last, hr.mem, by simp [(hiff last hr.mem).mpr rfl]⟩

/-- A retry settles the held round, frees the slot and queues the next round. -/
theorem Shape.retry (h : Shape s) {w : Work} {a b : Attempt} {attempts} {utc : Instant}
    {r : Settlement} {n : Nat} (held : Held s w a) (fresh : Fresh b w.workId (a.attemptNumber + 1))
    (hb : (s.requeue a utc r).attempts.insert? b = some attempts) :
    Shape { s.requeue a utc r with attempts, queueSeq := n }.release := by
  have hrounds := (h.held held).2.2
  -- after the settlement alone the work has no active round
  let m : Db := { (s.settleRound a.attemptId utc r).setWork w.workId ({ · with state := .failed }) with
    owner := s.release.owner }
  have hm : Shape m := h.moveHeld held _ _ (by intro _; rfl) (by intro _; rfl) (by intro _; rfl)
    (by intro _; rfl) rfl rfl (Or.inr rfl) (tail_of_terminal rfl rfl)
  have hrows : ∀ x, x ∈ m.attempts ↔ (x ∈ s.attempts ∧ x.attemptId ≠ a.attemptId) ∨
      x = { a with state := .settled, outcome := some r.outcome, settledAt := some utc,
                   proof := some r.proof, failureCode := r.failureCode } :=
    fun x => Table.mem_modify_row (by intro _; rfl) held.mem
  have hwm : { w with state := .failed } ∈ m.works :=
    (Table.mem_modify_row (by intro _; rfl) held.workMem).mpr (Or.inr rfl)
  obtain ⟨last, hr⟩ := hm.rounds _ hwm
  have hlast : last.attemptNumber = a.attemptNumber := by
    rcases (hrows last).mp hr.mem with ⟨hl, hne⟩ | rfl
    · have hearlier := hrounds.earlier last hl hr.ofWork hne
      have hlater := hr.earlier _ ((hrows _).mpr (Or.inr rfl)) held.ofWork (Ne.symm hne)
      exact absurd hearlier.2.2.2 (Nat.lt_asymm hlater.2.2.2)
    · rfl
  have hend := hr.tail.settled_of_terminal rfl
  refine hm.append (q := { w with state := .queued }) hwm hr hend.1 hend.2 (hlast ▸ fresh)
    (Table.insert?_fresh hb) rfl rfl (fun x => Table.mem_insert? hb) ?_ rfl
  intro x
  have hx : x ∈ s.works.modify a.workId ({ · with state := .queued }) ↔
      (x ∈ s.works ∧ x.workId ≠ w.workId) ∨ x = { w with state := .queued } := by
    rw [held.ofWork]
    exact Table.mem_modify_row (by intro _; rfl) held.workMem
  have hxm : x ∈ m.works ↔ (x ∈ s.works ∧ x.workId ≠ w.workId) ∨ x = { w with state := .failed } :=
    Table.mem_modify_row (by intro _; rfl) held.workMem
  rw [hxm]
  refine hx.trans ⟨?_, ?_⟩
  · rintro (⟨hs, hne⟩ | hq)
    · exact Or.inl ⟨Or.inl ⟨hs, hne⟩, hne⟩
    · exact Or.inr hq
  · rintro (⟨hold | rfl, hne⟩ | hq)
    · exact Or.inl hold
    · exact absurd rfl hne
    · exact Or.inr hq

/-- The number the next round of a work without an active one gets. -/
theorem Rounds.lastNumber {w : Work} {last : Attempt} (h : Rounds s w last) :
    ProviderWork.lastNumber s w.workId = last.attemptNumber := by
  have hmax : ((s.attemptsOf w.workId).map (·.attemptNumber)).max? = some last.attemptNumber := by
    rw [List.max?_eq_some_iff]
    refine ⟨List.mem_map.mpr ⟨last, mem_attemptsOf.mpr ⟨h.mem, h.ofWork⟩, rfl⟩, ?_⟩
    intro k hk
    obtain ⟨a, ha, rfl⟩ := List.mem_map.mp hk
    obtain ⟨ha, hof⟩ := mem_attemptsOf.mp ha
    by_cases he : a.attemptId = last.attemptId
    · rw [Table.eq_of_key ha h.mem he]
    · exact (h.earlier a ha hof he).2.2.2.le
  rw [ProviderWork.lastNumber, hmax, Option.getD_some]

theorem trans_shape (ht : Trans cfg mode s t) (h : Shape s) : Shape t := by
  cases ht with
  | enqueue _ queued _ _ fresh hw ha => exact h.enqueue queued fresh hw ha
  | @hand work attempt now drain token host idle mem workMem ofWork queued attemptQueued =>
    refine h.replace (q := { work with state := .running })
      (b := attempt.handed .opened (some now) drain (s.owner.generation + 1) token) workMem mem
      ofWork (by rw [attemptQueued]; decide) rfl rfl rfl rfl
      (fun x => Table.mem_modify_row (by intro _; rfl) mem)
      (fun x => Table.mem_modify_row (by intro _; rfl) workMem) ?_ ⟨rfl, rfl⟩
    intro k hk
    have hne : attempt.attemptId ≠ k := hk.symm
    simp [Db.hand, Owner.rotated, idle, hne]
  | @resume work attempt now drain token host held keeps =>
    refine h.moveHeld held _ _ (by intro _; rfl) (by intro _; rfl) (by intro _; rfl)
      (by intro _; rfl) rfl rfl (Or.inl rfl) ⟨?_, rfl⟩
    have hactive := (h.held held).1
    cases hst : attempt.state <;> simp_all [Attempt.handed, AttemptState.active]
  | @block work attempt held =>
    refine h.moveHeld held _ _ (by intro _; rfl) (by intro _; rfl) (by intro _; rfl)
      (by intro _; rfl) rfl rfl (Or.inl held.owned) ⟨?_, held.owned⟩
    have hactive := (h.held held).1
    cases hst : attempt.state <;> simp_all [AttemptState.active]
  | touch o sameAttempt _ _ => exact h.congr rfl rfl sameAttempt
  | freeze m _ _ _ => exact h.restate fun _ _ _ _ htail => htail
  | close held _ => exact h.moveRound held .closed rfl
  | drain held _ => exact h.moveRound held .draining rfl
  | retry utc r _ held _ _ fresh ha => exact h.retry held fresh ha
  | @finish work attempt utc r validated held _ checked _ =>
    have hend := Outcome.workState_terminal checked.final
    refine h.moveHeld held _ (fun w => { w with state := r.outcome.workState, completedAt := some utc })
      (by intro _; rfl) (by intro _; rfl) (by intro _; rfl) (by intro _; rfl) rfl ?_ (Or.inr rfl)
      (tail_of_terminal hend rfl)
    rw [← held.ofWork]
    rfl
  | cancelQueued now workMem queued _ _ => exact h.cancelQueued workMem queued
  | drainQueued workId => exact h.recolor (fun _ => rfl) (fun _ => rfl) fun _ => rfl
  | @reopen work a attempts _ workMem _ _ ended fresh ha =>
    obtain ⟨last, hr⟩ := h.rounds work workMem
    have hterm : work.state.terminal = true := by rcases ended with he | he <;> rw [he] <;> rfl
    have hend := hr.tail.settled_of_terminal hterm
    exact h.append (q := { work with state := .queued, completedAt := none }) workMem hr hend.1
      hend.2 (hr.lastNumber ▸ fresh) (Table.insert?_fresh ha) rfl rfl
      (fun x => Table.mem_insert? ha) (fun x => Table.mem_modify_row (by intro _; rfl) workMem) rfl
  | @calendarClose work utc workMem _ unresolved =>
    refine h.restate fun w hw hk last htail => ?_
    rw [Table.eq_of_key hw workMem hk] at htail
    rcases unresolved with hst | hst | hst <;> rw [hst] at htail
    · exact ⟨Or.inl htail.1, htail.2⟩
    · exact ⟨Or.inr htail.1, htail.2⟩
    · exact ⟨Or.inr htail.1, htail.2⟩
  | _ => exact h.congr rfl rfl rfl

theorem shape_init (registry : Registry) : Shape (Db.init registry) := by
  refine ⟨?_, ?_, ?_, ?_⟩
  · exact fun a ha => absurd ha (Table.not_mem_empty a)
  · exact fun k hk => by cases hk
  · exact fun a ha => absurd ha (Table.not_mem_empty a)
  · exact fun w hw => absurd hw (Table.not_mem_empty w)

theorem Reachable.shape (h : Reachable cfg s) : Shape s :=
  h.transInv shape_init
    (fun _ _ henv hs => hs.congr henv.works henv.attempts (by rw [henv.owner]))
    fun _ _ => trans_shape

/-! ## The single owner -/

/-- What one reads off the tables: who holds the provider, what waits and what ended. -/
structure SingleOwner (s : Db) : Prop where
  active : ∀ a ∈ s.attempts, a.state.active = true ↔ s.owner.attemptId = some a.attemptId
  owned : ∀ k, s.owner.attemptId = some k → ∃ a ∈ s.attempts, a.attemptId = k ∧
    ∃ w ∈ s.works, w.workId = a.workId ∧ (w.state = .running ∨ w.state = .recoveryBlocked)
  running : ∀ w ∈ s.works, (w.state = .running ∨ w.state = .recoveryBlocked) →
    ∃ a ∈ s.attempts, a.workId = w.workId ∧ s.owner.attemptId = some a.attemptId
  queued : ∀ w ∈ s.works, w.state = .queued →
    ∃! a, a ∈ s.attempts ∧ a.workId = w.workId ∧ a.state = .queued
  ended : ∀ w ∈ s.works, w.state.terminal = true →
    ∀ a ∈ s.attempts, a.workId = w.workId → a.state = .settled
  numbered : ∀ w ∈ s.works, ∃ n, 1 ≤ n ∧
    ((s.attemptsOf w.workId).map (·.attemptNumber)).Perm (List.range' 1 n) ∧
    ∀ a ∈ s.attempts, a.workId = w.workId → a.attemptNumber < n → a.state = .settled

theorem Shape.active (h : Shape s) {a : Attempt} (ha : a ∈ s.attempts) :
    a.state.active = true ↔ s.owner.attemptId = some a.attemptId := by
  obtain ⟨w, hw, hwa⟩ := h.parent a ha
  constructor
  · intro hactive
    obtain ⟨last, hr⟩ := h.rounds w hw
    have hlast : a = last := hr.last_of_unsettled ha hwa.symm (by
      intro hs; rw [hs] at hactive; cases hactive)
    subst hlast
    exact hr.tail.owned hactive
  · intro ho
    exact (h.held ⟨ho, ha, hw, hwa.symm⟩).1

theorem Rounds.numbered {w : Work} {last : Attempt} (h : Rounds s w last) (hs : Shape s) :
    ((s.attemptsOf w.workId).map (·.attemptNumber)).Perm (List.range' 1 last.attemptNumber) := by
  have hnodup : ((s.attemptsOf w.workId).map (·.attemptNumber)).Nodup := by
    refine List.Nodup.map_on ?_ (List.Nodup.filter _ (List.Nodup.of_map _ s.attempts.nodup))
    intro a ha b hb hab
    obtain ⟨ha, haw⟩ := mem_attemptsOf.mp ha
    obtain ⟨hb, hbw⟩ := mem_attemptsOf.mp hb
    exact hs.numbers a ha b hb (haw.trans hbw.symm) hab
  rw [List.perm_ext_iff_of_nodup hnodup List.nodup_range']
  intro k
  rw [List.mem_range'_1, List.mem_map]
  constructor
  · rintro ⟨a, ha, rfl⟩
    obtain ⟨ha, hof⟩ := mem_attemptsOf.mp ha
    by_cases hk : a.attemptId = last.attemptId
    · rw [Table.eq_of_key ha h.mem hk]
      exact ⟨h.pos, by omega⟩
    · obtain ⟨_, _, h1, h2⟩ := h.earlier a ha hof hk
      exact ⟨h1, by omega⟩
  · rintro ⟨h1, h2⟩
    obtain ⟨a, ha, hof, hn⟩ := h.full k h1 (by omega)
    exact ⟨a, mem_attemptsOf.mpr ⟨ha, hof⟩, hn⟩

theorem Shape.singleOwner (h : Shape s) : SingleOwner s := by
  refine ⟨fun a ha => h.active ha, ?_, ?_, ?_, ?_, ?_⟩
  · intro k hk
    obtain ⟨a, ha, rfl⟩ := h.ownedMem k hk
    obtain ⟨w, hw, hwa⟩ := h.parent a ha
    exact ⟨a, ha, rfl, w, hw, hwa, (h.held ⟨hk, ha, hw, hwa.symm⟩).2.1⟩
  · intro w hw hst
    obtain ⟨last, hr⟩ := h.rounds w hw
    have htail := hr.tail
    refine ⟨last, hr.mem, hr.ofWork, ?_⟩
    rcases hst with hst | hst <;> rw [hst] at htail <;> exact htail.2
  · intro w hw hq
    obtain ⟨last, hr, hlast, _⟩ := h.queuedRound hw hq
    refine ⟨last, ⟨hr.mem, hr.ofWork, hlast⟩, ?_⟩
    rintro a ⟨ha, hof, hst⟩
    exact hr.last_of_unsettled ha hof (by rw [hst]; decide)
  · intro w hw hterm a ha hof
    obtain ⟨last, hr⟩ := h.rounds w hw
    by_contra hs
    have hlast := hr.last_of_unsettled ha hof hs
    exact hs (hlast ▸ (hr.tail.settled_of_terminal hterm).1)
  · intro w hw
    obtain ⟨last, hr⟩ := h.rounds w hw
    refine ⟨last.attemptNumber, hr.pos, hr.numbered h, ?_⟩
    intro a ha hof hlt
    by_contra hs
    rw [hr.last_of_unsettled ha hof hs] at hlt
    exact absurd hlt (lt_irrefl _)

/-- **One owner.** In every reachable state exactly the owned round is active,
its work alone runs, every queued work waits with one round, an ended work has
only settled ones, and the rounds of a work are numbered without a gap. -/
theorem reachable_singleOwner (h : Reachable cfg s) : SingleOwner s := h.shape.singleOwner

/-- A maintenance work enqueued, claimed and closed. -/
theorem closed_singleOwner :
    let s := ranTwelveData [enqueueMaintenance, .claim 5 5 7 (hostClaim false),
      .mutate 6 ["us_equity_eod"] ⟨1, 1, 7⟩ .close]
    s.owner.attemptId = some 2 ∧ s.attempts.rows.map (·.state) = [.closed] ∧ SingleOwner s :=
  ⟨by decide, by decide, reachable_singleOwner (reachable_runAll _ _)⟩

end FinDB.ProviderWork
